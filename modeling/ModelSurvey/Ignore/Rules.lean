import ModelSurvey.Ignore.Matching
import ModelSurvey.Syntax.Tree
import ModelSurvey.Text.Blank

/-! Ignore rules, one a line. A rule without a slash inside holds at any depth, one with a trailing
slash for directories only, and one after an exclamation mark takes paths back. Of the rules that
match a path the last one decides. -/
namespace ModelSurvey.Ignore
set_option autoImplicit false

structure Rule where
  glob : Glob
  takesBack : Bool
  onlyDirectories : Bool

inductive Verdict where
  | hidden
  | kept
deriving DecidableEq, Repr

/-! ## Reading rules -/

/-- The line without trailing blanks, unless an escaped space ends it. -/
def trimLine (line : List Char) : List Char :=
  match line.reverse with
  | ' ' :: '\\' :: _ => line
  | _ => Text.trimRight line

/-- What is left of the line, whether it takes back, and whether it starts at the directory. -/
def lineHead : List Char → List Char × Bool × Bool
  | '\\' :: '!' :: r => ('!' :: r, false, false)
  | '\\' :: '#' :: r => ('#' :: r, false, false)
  | '!' :: '/' :: r => (r, true, true)
  | '!' :: r => (r, true, false)
  | '/' :: r => (r, false, true)
  | cs => (cs, false, false)

/-- The line without a trailing slash, and whether it had one. -/
def lineTail (cs : List Char) : List Char × Bool :=
  match cs.reverse with
  | '/' :: '\\' :: r => (r.reverse, true)
  | '/' :: r => (r.reverse, true)
  | _ => (cs, false)

def hasAnyDepth (cs : List Char) : Bool := cs == ['*', '*'] || ['*', '*', '/'].isPrefixOf cs

/-- A pattern without a slash holds below any directories. -/
def atAnyDepth (anchored : Bool) (cs : List Char) : List Char :=
  if anchored || cs.contains '/' || hasAnyDepth cs then cs else ['*', '*', '/'] ++ cs

/-- A pattern for all below a directory does not hide the directory itself. -/
def notItself (cs : List Char) : List Char :=
  if ['*', '*', '/'].isPrefixOf cs.reverse then cs ++ ['/', '*'] else cs

/-- The rule on a line, unless it is blank, a comment, or no pattern. -/
def Rule.ofLine? (lenient : Bool) (line : List Char) : Option Rule :=
  if line.head? = some '#' then none
  else
    let trimmed := trimLine line
    if trimmed.isEmpty then none
    else
      let (rest, takesBack, anchored) := lineHead trimmed
      let (bare, onlyDirectories) := lineTail rest
      (Glob.read? lenient (notItself (atAnyDepth anchored bare))).map fun glob =>
        ⟨glob, takesBack, onlyDirectories⟩

/-- Rules that hold together. A class that runs backwards, or a pattern that nests too deep, spoils
all of them. -/
def soundRules (rules : List Rule) : List Rule :=
  if rules.all fun r => r.glob.isUsable then rules else []

def lineFeed : UInt8 := 0x0a

def carriageReturn : UInt8 := 0x0d

/-- Bytes cut at line ends: line feeds, each with a carriage return in front of it. The bytes after
the last line feed keep theirs. -/
def rawLines (bytes : List UInt8) : List (List UInt8) :=
  let cut := Text.pieces (· == lineFeed) bytes
  (cut.dropLast.map fun l => if l.getLast? == some carriageReturn then l.dropLast else l) ++
    cut.getLast?.toList

/-- The lines of a file, as far as they are text, without line ends and byte order mark. -/
def linesOf (bytes : List UInt8) : List (List Char) :=
  let decoded := (((rawLines bytes).map Syntax.Source.decode?).takeWhile Option.isSome).filterMap id
  match decoded.map String.toList with
  | [] => []
  | first :: more => first.dropWhile (· == '\uFEFF') :: more

def rulesOf (bytes : List UInt8) : List Rule :=
  soundRules ((linesOf bytes).filterMap (Rule.ofLine? true))

/-! ## Verdicts -/

def pathBytes (names : List String) : List UInt8 := ("/".intercalate names).toUTF8.data.toList

def Rule.applies (r : Rule) (path : List UInt8) (directory : Bool) : Bool :=
  (!r.onlyDirectories || directory) && r.glob.matches path

/-- What the last rule that applies says. -/
def verdict? (rules : List Rule) (names : List String) (directory : Bool) : Option Verdict :=
  (rules.reverse.find? fun r => r.applies (pathBytes names) directory).map fun r =>
    if r.takesBack then .kept else .hidden

end ModelSurvey.Ignore
