import ModelSurvey.Expansion.Bucket
import ModelSurvey.Facts.Model
import ModelSurvey.Registry.Index
import ModelSurvey.Text.SnakeCase

/-! Analysis of a model class: the declarations of its file are collected and expanded, and the facts
are taken from the bucket of the class. An analysis starts with an empty memory. -/
namespace ModelSurvey
set_option autoImplicit false

structure Analysis where
  className : String
  table : Table
  facts : ModelFacts
  stats : Expansion.Stats

/-- What analyses of one project share: its constants and its settings. -/
structure Analyzer where
  registry : Registry
  settings : Settings

namespace Analyzer

/-- The analyzer of a project, whose constants are found on its disk. -/
def ofProject (d : Disk) (settings : Settings) : Analyzer :=
  ⟨Registry.scan d settings.registry settings.expansion settings.parser, settings⟩

def limit (a : Analyzer) : Nat := a.settings.parser.effectiveMaxFileSize

def sources (a : Analyzer) (d : Disk) : Expansion.Sources := ⟨a.registry, d, a.limit⟩

/-- The analysis of a class whose file has these declarations. -/
def analyzeTable (a : Analyzer) (d : Disk) (className : String) (t : Table) : Analysis :=
  let name := Name.unroot className
  let expanded :=
    Expansion.expand (a.sources d) a.settings.expansion.effectiveEnabled {} t
  ⟨name, expanded.2, ModelFacts.ofDeclarations name (expanded.2.bucket name), expanded.1.2⟩

def analyzeProgram (a : Analyzer) (d : Disk) (className : String) (p : Syntax.Program) : Analysis :=
  a.analyzeTable d className (Survey.ofStatements p.statements).table

def analyzeFile (a : Analyzer) (d : Disk) (className : String) (path : Path) :
    Except SourceFailure Analysis :=
  (d.readProgram a.limit path).map (a.analyzeProgram d className)

/-- Where the file of a model class belongs below a project's directory. -/
def modelPath (root : Path) (className : String) : Path :=
  ((root.join "app").join "models").join (Text.underscore className ++ ".rb")

def analyzeModel (a : Analyzer) (d : Disk) (className : String) : Except SourceFailure Analysis :=
  a.analyzeFile d className (modelPath d.top className)

end Analyzer

end ModelSurvey
