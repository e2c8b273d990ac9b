import ModelSurvey.Syntax.Tree
import ModelSurvey.Text.Blank
import ModelSurvey.Text.Digits

/-! What literals denote. Integers are 64-bit: a literal outside that range has no value. Text in
single quotes knows two escapes, a doubled backslash and an escaped quote; an escape sequence of
double-quoted text stands for one or several characters, or for none. A string-like tree node has a
value when it is made of content and escapes only. -/
namespace ModelSurvey.Syntax
set_option autoImplicit false
open Text

/-! ## Integers -/

/-- The base that a numeral in lower case announces, and its digits. -/
def announcedBase : List Char → Nat × List Char
  | '0' :: 'x' :: r => (16, r)
  | '0' :: 'b' :: r => (2, r)
  | '0' :: 'o' :: r => (8, r)
  | '0' :: 'd' :: r => (10, r)
  | '0' :: c :: r => (8, c :: r)
  | cs => (10, cs)

/-- The value of an unsigned literal without underscores. -/
def magnitude? (cs : List Char) : Option Int :=
  let (base, digits) := announcedBase (cs.map Char.toLower)
  (signedNumeral? base digits).bind word?

/-- The value of an integer literal. Underscores may stand anywhere, one sign in front. -/
def integer? (text : String) : Option Int :=
  match text.toList.filter (· ≠ '_') with
  | '-' :: r => (magnitude? r).bind fun n => word? (-n)
  | '+' :: r => magnitude? r
  | cs => magnitude? cs

/-! ## Characters by escape -/

def scalarIn? (base : Nat) (digits : List Char) : Option Char :=
  (plusNumeral? base digits).bind scalar?

/-- The code points between braces, or the single one without them. -/
def codePoints (rest : List Char) : List Char :=
  let inner := rest.dropWhile (· == '\x7b')
  let bare := (inner.reverse.dropWhile (· == '\x7d')).reverse
  (words bare).filterMap (scalarIn? 16)

/-- The control character or blank that a letter stands for after a backslash. -/
def namedEscape? : Char → Option Char
  | 'n' => some '\n'
  | 't' => some '\t'
  | 'r' => some '\r'
  | 's' => some ' '
  | 'e' => some '\x1b'
  | 'a' => some '\x07'
  | 'b' => some '\x08'
  | 'f' => some '\x0c'
  | 'v' => some '\x0b'
  | _ => none

/-- What a backslash followed by `c` and `rest` stands for. An escaped line break is nothing, and a
character without special meaning is itself. -/
def escaped (c : Char) (rest : List Char) : List Char :=
  match namedEscape? c with
  | some k => [k]
  | none =>
    if c = '\n' then []
    else if c = 'u' then codePoints rest
    else if c = 'x' then (scalarIn? 16 rest).toList
    else if (digit? 8 c).isSome then (scalarIn? 8 (c :: rest)).toList
    else [c]

def unescape : List Char → List Char
  | '\\' :: c :: rest => escaped c rest
  | ['\\'] => []
  | cs => cs

/-- Single-quoted text: a backslash goes before a backslash or a quote, and stays otherwise. -/
def unescapeSingle : List Char → List Char
  | '\\' :: c :: r =>
    if c = '\\' ∨ c = '\x27' then c :: unescapeSingle r else '\\' :: unescapeSingle (c :: r)
  | c :: r => c :: unescapeSingle r
  | [] => []

/-! ## Strings -/

/-- Whether a literal is written with single quotes, as a string, a symbol or with `%q`. -/
def isSingleQuoted : List Char → Bool
  | '\x27' :: _ => true
  | '%' :: 'q' :: _ => true
  | ':' :: '\x27' :: _ => true
  | _ => false

/-- A word of a word list stands for itself when it has no named children. -/
def isPlainWord (t : Tree) : Bool :=
  (t.kind == "bare_string" || t.kind == "bare_symbol") && !t.children.any (·.label.named)

/-- What one part of a string contributes; interpolation has no text. -/
def pieceText? (s : Source) (single : Bool) (t : Tree) : Option (List Char) :=
  if t.kind = "string_content" then
    some (if single then unescapeSingle (s.text t.label).toList else (s.text t.label).toList)
  else if t.kind = "escape_sequence" then some (unescape (s.text t.label).toList)
  else none

/-- The contributions of all parts, if each has one. -/
def concatPieces? (f : Tree → Option (List Char)) : List Tree → Option (List Char)
  | [] => some []
  | t :: r => (f t).bind fun cs => (concatPieces? f r).map (cs ++ ·)

/-- The text of a string-like node, if nothing is interpolated in it. -/
def stringChars? (s : Source) (t : Tree) : Option (List Char) :=
  let raw := (s.text t.label).toList
  if isPlainWord t then some raw
  else concatPieces? (pieceText? s (isSingleQuoted raw)) t.parts

/-- The text of adjacent literals, if each of them has one. -/
def chainedChars? (s : Source) (parts : List Tree) : Option (List Char) :=
  concatPieces? (stringChars? s) parts

end ModelSurvey.Syntax
