import ModelSurvey.Text.Digits

/-! Strings of TOML, in their four written forms: with double or single quotes, on one line or on
several. Only double quotes know escapes. A string is written in the plainest form that needs no
escapes, and with escapes if there is none. -/
namespace ModelSurvey.Toml
set_option autoImplicit false
open Text

/-- A character that may stand in a line: a tab, or no control character. -/
def isLineChar (c : Char) : Bool := c == '\t' || (decide (0x20 ≤ c.toNat) && c.toNat != 0x7f)

def isSpaceOrTab (c : Char) : Bool := c == ' ' || c == '\t'

/-! ## Reading -/

def escapeValue? : Char → Option Char
  | 'b' => some '\x08'
  | 't' => some '\t'
  | 'n' => some '\n'
  | 'f' => some '\x0c'
  | 'r' => some '\r'
  | '"' => some '"'
  | '\\' => some '\\'
  | _ => none

def hexScalar? (digits : List Char) : Option Char := (numeral? 16 digits).bind scalar?

/-- Puts a character, if there is one, in front of the text read so far. -/
def withChar (c : Option Char) (more : Option (List Char × List Char)) :
    Option (List Char × List Char) :=
  c.bind fun c => more.map fun m => (c :: m.1, m.2)

/-- Reads a one-line string after its opening double quote, and gives what follows it. -/
def readBasic : List Char → Option (List Char × List Char)
  | [] => none
  | '"' :: r => some ([], r)
  | '\\' :: 'u' :: a :: b :: c :: d :: r => withChar (hexScalar? [a, b, c, d]) (readBasic r)
  | '\\' :: 'U' :: a :: b :: c :: d :: e :: f :: g :: h :: r =>
    withChar (hexScalar? [a, b, c, d, e, f, g, h]) (readBasic r)
  | '\\' :: c :: r => withChar (escapeValue? c) (readBasic r)
  | c :: r => if isLineChar c then withChar (some c) (readBasic r) else none

/-- Whether only blanks stand before the end of the line. -/
def endsLine (cs : List Char) : Bool :=
  match cs.dropWhile isSpaceOrTab with
  | '\n' :: _ => true
  | '\r' :: '\n' :: _ => true
  | _ => false

/-- Up to two quotes may stand directly before the closing three. -/
def closeMany (quote : Char) : List Char → List Char × List Char
  | a :: b :: r =>
    if a = quote then if b = quote then ([quote, quote], r) else ([quote], b :: r) else ([], a :: b :: r)
  | [a] => if a = quote then ([quote], []) else ([], [a])
  | [] => ([], [])

/-- Reads a string of several lines after its opening double quotes. After a backslash at the end of
a line, blanks and line ends are skipped. -/
def readManyBasic (skipping : Bool) : List Char → Option (List Char × List Char)
  | [] => none
  | '"' :: '"' :: '"' :: r => some (closeMany '"' r)
  | '\\' :: 'u' :: a :: b :: c :: d :: r =>
    withChar (hexScalar? [a, b, c, d]) (readManyBasic false r)
  | '\\' :: 'U' :: a :: b :: c :: d :: e :: f :: g :: h :: r =>
    withChar (hexScalar? [a, b, c, d, e, f, g, h]) (readManyBasic false r)
  | '\\' :: c :: r =>
    if endsLine (c :: r) then readManyBasic true (c :: r)
    else withChar (escapeValue? c) (readManyBasic false r)
  | '\r' :: '\n' :: r =>
    if skipping then readManyBasic true r else withChar (some '\n') (readManyBasic false r)
  | c :: r =>
    if skipping && (isSpaceOrTab c || c == '\n') then readManyBasic true r
    else if isLineChar c || c == '\n' then withChar (some c) (readManyBasic false r)
    else none

/-- Reads a one-line string after its opening single quote. -/
def readLiteral : List Char → Option (List Char × List Char)
  | [] => none
  | c :: r =>
    if c = '\x27' then some ([], r)
    else if isLineChar c then withChar (some c) (readLiteral r)
    else none

/-- Reads a string of several lines after its opening single quotes. -/
def readManyLiteral : List Char → Option (List Char × List Char)
  | [] => none
  | '\x27' :: '\x27' :: '\x27' :: r => some (closeMany '\x27' r)
  | '\r' :: '\n' :: r => withChar (some '\n') (readManyLiteral r)
  | c :: r =>
    if isLineChar c || c == '\n' then withChar (some c) (readManyLiteral r) else none

/-- The text without a line end right at its start. -/
def dropLineEnd : List Char → List Char
  | '\n' :: r => r
  | '\r' :: '\n' :: r => r
  | cs => cs

/-- Reads a string that starts here, in whichever form. -/
def readString : List Char → Option (List Char × List Char)
  | '"' :: '"' :: '"' :: r => readManyBasic false (dropLineEnd r)
  | '"' :: r => readBasic r
  | '\x27' :: '\x27' :: '\x27' :: r => readManyLiteral (dropLineEnd r)
  | '\x27' :: r => readLiteral r
  | _ => none

/-! ## Writing -/

/-- A control character that every form has to escape. -/
def needsEscape (c : Char) : Bool :=
  c != '\t' && c != '\n' && (decide (c.toNat < 0x20) || c.toNat == 0x7f)

/-- The greatest number of consecutive `c`, when `run` of them stand before. -/
def longestRun (c : Char) (run : Nat) : List Char → Nat
  | [] => run
  | d :: r => if d = c then longestRun c (run + 1) r else max run (longestRun c 0 r)

inductive Form where
  | basic
  | literal
  | manyLiteral
  | manyBasic
deriving DecidableEq, Repr

def formFor (cs : List Char) : Form :=
  let controls := cs.any needsEscape
  let backslash := cs.contains '\\'
  let newline := cs.contains '\n'
  if !controls && !backslash && !newline && !cs.contains '"' then .basic
  else if !controls && !newline && !cs.contains '\x27' then .literal
  else if !controls && !backslash && decide (longestRun '"' 0 cs ≤ 2) then .manyBasic
  else if !controls && decide (longestRun '\x27' 0 cs ≤ 2) then .manyLiteral
  else if newline then .manyBasic
  else .basic

def upperHex4 (n : Nat) : List Char :=
  let ds := (Nat.toDigits 16 n).map Char.toUpper
  List.replicate (4 - ds.length) '0' ++ ds

/-- A character between double quotes, other than a quote. -/
def writeChar (many : Bool) (c : Char) : List Char :=
  if c = '\x08' then ['\\', 'b']
  else if c = '\t' then ['\\', 't']
  else if c = '\n' then (if many then ['\n'] else ['\\', 'n'])
  else if c = '\x0c' then ['\\', 'f']
  else if c = '\r' then ['\\', 'r']
  else if c = '\\' then ['\\', '\\']
  else if needsEscape c then '\\' :: 'u' :: upperHex4 c.toNat
  else [c]

/-- Text between double quotes, after `run` bare quotes. On several lines two may stand together. -/
def writeBasic (many : Bool) (run : Nat) : List Char → List Char
  | [] => []
  | '"' :: r =>
    if many && decide (run < 2) then '"' :: writeBasic many (run + 1) r
    else '\\' :: '"' :: writeBasic many 0 r
  | c :: r => writeChar many c ++ writeBasic many 0 r

/-- A line end goes before a text that has one itself. -/
def leadIn (cs : List Char) : List Char := if cs.contains '\n' then ['\n'] else []

def writeString (cs : List Char) : List Char :=
  match formFor cs with
  | .basic => '"' :: writeBasic false 0 cs ++ ['"']
  | .literal => '\x27' :: cs ++ ['\x27']
  | .manyBasic => ['"', '"', '"'] ++ leadIn cs ++ writeBasic true 0 cs ++ ['"', '"', '"']
  | .manyLiteral =>
    ['\x27', '\x27', '\x27'] ++ leadIn cs ++ cs ++ ['\x27', '\x27', '\x27']

end ModelSurvey.Toml
