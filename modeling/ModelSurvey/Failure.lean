import ModelSurvey.Disk.Basic

/-! What can go wrong when sources and settings are read. Each failure is a cause; `code` names its
class and `message` words it for people. Failures of settings text to be TOML have no wording here. -/
namespace ModelSurvey
set_option autoImplicit false

inductive SourceFailure where
  | noGrammar (language : String)
  | unparsed (path : Path) (reason : String)
  | tooLarge (path : Path) (size limit : Nat)
  | unreadable (path : Path) (reason : String)
deriving DecidableEq, Repr

namespace SourceFailure

def code : SourceFailure → String
  | noGrammar _ => "GRAMMAR_NOT_FOUND"
  | unparsed _ _ => "TREE_SITTER_ERROR"
  | tooLarge _ _ _ => "FILE_TOO_LARGE"
  | unreadable _ _ => "IO_ERROR"

def message : SourceFailure → String
  | noGrammar language => "Grammar not found for language: " ++ language
  | unparsed path reason => "tree-sitter failed on " ++ path.text ++ ": " ++ reason
  | tooLarge path size limit =>
    path.text ++ " is " ++ toString size ++ " bytes, over the " ++ toString limit ++ " byte limit"
  | unreadable path reason => "Failed to read " ++ path.text ++ ": " ++ reason

end SourceFailure

inductive SettingsFailure where
  | unreadable (path : Path) (fault : Disk.Fault)
  | notToml
  | notWritable
  | invalid (key reason : String)
deriving DecidableEq, Repr

namespace SettingsFailure

def code : SettingsFailure → String
  | unreadable _ _ => "IO_ERROR"
  | notToml => "CONFIG_PARSE_ERROR"
  | notWritable => "CONFIG_ERROR"
  | invalid _ _ => "CONFIG_ERROR"

def message? : SettingsFailure → Option String
  | unreadable path fault => some ("Failed to read config " ++ path.text ++ ": " ++ fault.message)
  | notToml => none
  | notWritable => none
  | invalid key reason => some ("Invalid value for " ++ key ++ ": " ++ reason)

end SettingsFailure

end ModelSurvey
