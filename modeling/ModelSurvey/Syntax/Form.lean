/-! The forms of concrete nodes that lowering tells apart, by the grammar's names for them. A kind
without an entry is a plain expression. -/
namespace ModelSurvey.Syntax
set_option autoImplicit false

inductive Form where
  | nil
  | truth (b : Bool)
  | integer
  | unary
  | string
  | chainedString
  | simpleSymbol
  | keySymbol
  | quotedSymbol
  | array
  | hash
  | pair
  | hashSplat
  | constant
  | scopeResolution
  | call
  | assignment
  | lambda
  | classBody
  | moduleBody
  | method
  | container
  | bodyStatement
  | blockBody
  | block
  | blockParameters
  | identifier
  | plain
deriving DecidableEq, Repr, Inhabited

namespace Form

def table : List (String × Form) :=
  [("nil", nil), ("true", truth true), ("false", truth false), ("integer", integer),
    ("unary", unary), ("string", string), ("bare_string", string),
    ("chained_string", chainedString), ("simple_symbol", simpleSymbol),
    ("hash_key_symbol", keySymbol), ("delimited_symbol", quotedSymbol),
    ("bare_symbol", quotedSymbol), ("array", array), ("string_array", array),
    ("symbol_array", array), ("hash", hash), ("pair", pair), ("hash_splat_argument", hashSplat),
    ("constant", constant), ("scope_resolution", scopeResolution), ("call", call),
    ("method_call", call), ("assignment", assignment), ("lambda", lambda), ("class", classBody),
    ("module", moduleBody), ("method", method), ("singleton_method", method), ("then", container),
    ("else", container), ("do", container), ("begin", container), ("ensure", container),
    ("rescue", container), ("parenthesized_statements", container),
    ("singleton_class", container), ("body_statement", bodyStatement), ("block_body", blockBody),
    ("block", block), ("do_block", block), ("block_parameters", blockParameters),
    ("lambda_parameters", blockParameters), ("identifier", identifier)]

def ofKind (kind : String) : Form := (table.lookup kind).getD plain

end Form

end ModelSurvey.Syntax
