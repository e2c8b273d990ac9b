import ModelSurvey.Disk.Discover
import ModelSurvey.Disk.Read
import ModelSurvey.Registry.Basic
import ModelSurvey.Settings.Basic

/-! The registry of a project: every class and module defined in its source files. Files that cannot
be read are skipped, and of several definitions of a name the first one counts. A module is a
concern when its body extends one of the marker modules. -/
namespace ModelSurvey.Registry
set_option autoImplicit false

/-- The names of the modules that a namespace extends, without leading `::`. -/
def extendedNames (t : Table) (space : String) : List String :=
  ((t.named space "extend").filter fun d => d.receiver.isNone).flatMap fun d =>
    (d.arguments.filterMap fun n => n.evaluate.bind Value.name?).map Name.unroot

def extendsMarker (t : Table) (space : String) (markers : List String) : Bool :=
  (extendedNames t space).any fun name => markers.contains name

/-- The entries for the definitions in a file, in their order. -/
def entriesFor (path : Path) (survey : Survey) (markers : List String) : List Entry :=
  survey.definitions.map fun found =>
    ⟨found.name, found.kind, some path,
      found.kind == .moduleBody && extendsMarker survey.table found.name markers⟩

/-- The entries of a file, none if it cannot be read. -/
def fileEntries (d : Disk) (limit : Nat) (markers : List String) (path : Path) : List Entry :=
  match d.readSurvey limit path with
  | .ok survey => entriesFor path survey markers
  | .error _ => []

/-- The registry of some files, given in the order in which they are looked at. -/
def ofFiles (d : Disk) (limit : Nat) (markers : List String) (paths : List Path) : Registry :=
  (paths.flatMap (fileEntries d limit markers)).foldl defineNew ∅

/-- The registry of a project. -/
def scan (d : Disk) (registry : RegistrySettings) (expansion : ExpansionSettings)
    (parser : ParserSettings) : Registry :=
  ofFiles d parser.effectiveMaxFileSize expansion.effectiveConcernMarkers
    (d.sourceFiles registry.effectiveRoots registry.extraIgnore registry.effectiveFollowSymlinks)

end ModelSurvey.Registry
