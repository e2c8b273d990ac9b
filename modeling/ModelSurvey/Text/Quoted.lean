import ModelSurvey.Text.Unprintable

/-! Quoted text: the characters between double quotes, with a backslash before a quote or a
backslash, short escapes for NUL, tab, line feed and carriage return, and the code point in
hexadecimal for every other unprintable character. -/
namespace ModelSurvey.Text
set_option autoImplicit false

/-- The escape of a code point, in lower-case hexadecimal without padding. -/
def codePointEscape (c : Char) : List Char :=
  ['\\', 'u', '\x7b'] ++ Nat.toDigits 16 c.toNat ++ ['\x7d']

def quoteChar (c : Char) : List Char :=
  if c = '\x00' then ['\\', '0']
  else if c = '\t' then ['\\', 't']
  else if c = '\n' then ['\\', 'n']
  else if c = '\r' then ['\\', 'r']
  else if c = '"' ∨ c = '\\' then ['\\', c]
  else if isUnprintable c then codePointEscape c
  else [c]

def quote (s : String) : String :=
  String.ofList ('"' :: s.toList.flatMap quoteChar ++ ['"'])

end ModelSurvey.Text
