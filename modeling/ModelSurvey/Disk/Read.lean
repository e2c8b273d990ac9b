import ModelSurvey.Declaration.Collect
import ModelSurvey.Failure
import ModelSurvey.Syntax.Lower

/-! Reading source files up to a size limit. The size is checked before anything is read, and a file
whose text was never parsed is a failure of its own. -/
namespace ModelSurvey
set_option autoImplicit false
open Syntax

/-- The lowered program of a file with a parsed text. An idle text needs no tree. -/
def File.program? (f : File) : Option Program :=
  match f.tree with
  | some t => some (.ofTree f.source t)
  | none => if f.source.isIdle then some ⟨[], 0⟩ else none

namespace Disk

variable (d : Disk) (limit : Nat)

def unreadable (p : Path) (f : Fault) : SourceFailure := .unreadable p f.message

/-- What a path leads to, unless it is larger than the limit. -/
def openWithin (p : Path) : Except SourceFailure Item :=
  match d.open? p with
  | .error f => .error (unreadable p f)
  | .ok item => if limit < item.size then .error (.tooLarge p item.size limit) else .ok item

def readSource (p : Path) : Except SourceFailure String :=
  (d.openWithin limit p).bind fun item => item.text.mapError (unreadable p)

def readProgram (p : Path) : Except SourceFailure Program :=
  (d.openWithin limit p).bind fun item =>
    match item.text, item with
    | .error f, _ => .error (unreadable p f)
    | .ok _, .file f =>
      match f.program? with
      | some program => .ok program
      | none => .error (.unparsed p "tree-sitter returned None")
    | .ok _, _ => .error (unreadable p .isDirectory)

def readSurvey (p : Path) : Except SourceFailure Survey :=
  (d.readProgram limit p).map fun program => Survey.ofStatements program.statements

end Disk

end ModelSurvey
