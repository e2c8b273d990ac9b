import ModelSurvey.Settings.Environment
import ModelSurvey.Settings.Toml

/-! Loading the settings of a project: from the file asked for, else from the one in its top
directory if there is one, else the defaults; the environment has the last word. -/
namespace ModelSurvey
set_option autoImplicit false

def settingsFileName : String := "rbsgen.toml"

/-- The file that settings are read from. -/
def settingsPath? (d : Disk) (asked : Option Path) : Option Path :=
  match asked with
  | some p => some p
  | none =>
    let p := d.top.join settingsFileName
    if d.pathExists p then some p else none

def readSettings (d : Disk) : Option Path → Except SettingsFailure Settings
  | none => .ok {}
  | some p => ((d.readText p).mapError (.unreadable p)).bind Settings.ofToml

/-- The settings of a project under an environment. -/
def loadSettings (d : Disk) (asked : Option Path) (environment : List (String × String)) :
    Except SettingsFailure Settings :=
  (readSettings d (settingsPath? d asked)).bind fun s =>
    match s.override environment with
    | (s', none) => .ok s'
    | (_, some failure) => .error failure

end ModelSurvey
