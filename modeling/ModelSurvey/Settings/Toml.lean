import ModelSurvey.Failure
import ModelSurvey.Settings.Basic
import ModelSurvey.Toml.Reader
import ModelSurvey.Toml.Writer

/-! Settings as a TOML document with a table for each section. Unknown keys are ignored and a value
of the wrong type is an error. A section may also list its values in order in an array. Written
settings have every section, and in it what is set. -/
namespace ModelSurvey
set_option autoImplicit false

namespace Toml

/-! ## Values of settings -/

/-- A size is an integer that is not negative. -/
def size? : Toml → Option Nat
  | integer n => if 0 ≤ n then some n.toNat else none
  | _ => none

def flag? : Toml → Option Bool
  | boolean b => some b
  | _ => none

def text? : Toml → Option String
  | string s => some s
  | _ => none

def texts? : Toml → Option (List String)
  | array items => items.mapM text?
  | _ => none

/-- The fields of a section, each by its key or by its place. A date has no field at all. -/
inductive SectionForm where
  | keyed (es : Entries)
  | placed (items : List Toml)

def sectionForm? : Toml → Option SectionForm
  | table _ es => some (.keyed es)
  | array items => some (.placed items)
  | tables elements => some (.placed (elements.map (table .header)))
  | date _ => some (.keyed [])
  | _ => none

namespace SectionForm

def field? (f : SectionForm) (place : Nat) (key : String) : Option Toml :=
  match f with
  | keyed es => es.lookup key
  | placed items => items[place]?

/-- The value of a field that need not be there, unless it is of the wrong type. -/
def get? {α : Type} (f : SectionForm) (place : Nat) (key : String) (read : Toml → Option α) :
    Option (Option α) :=
  match f.field? place key with
  | none => some none
  | some v => (read v).map some

end SectionForm

end Toml

open Toml

/-! ## Reading -/

def ParserSettings.ofForm? (f : SectionForm) : Option ParserSettings := do
  let size ← f.get? 0 "max_file_size" size?
  some ⟨size⟩

def RegistrySettings.ofForm? (f : SectionForm) : Option RegistrySettings := do
  let roots ← f.get? 0 "roots" texts?
  let ignored ← f.get? 1 "extra_ignore" texts?
  let follow ← f.get? 2 "follow_symlinks" flag?
  some ⟨roots.getD [], ignored.getD [], follow⟩

def ExpansionSettings.ofForm? (f : SectionForm) : Option ExpansionSettings := do
  let enabled ← f.get? 0 "enabled" flag?
  let markers ← f.get? 1 "concern_markers" texts?
  some ⟨enabled, markers.getD []⟩

/-- A section of a document, its default if it is not there. -/
def readSection? {α : Type} [Inhabited α] (es : Entries) (key : String)
    (read : SectionForm → Option α) : Option α :=
  match es.lookup key with
  | none => some default
  | some v => (sectionForm? v).bind read

def Settings.ofEntries? (es : Entries) : Option Settings := do
  let parser ← readSection? es "parser" ParserSettings.ofForm?
  let registry ← readSection? es "registry" RegistrySettings.ofForm?
  let expansion ← readSection? es "expansion" ExpansionSettings.ofForm?
  some ⟨parser, registry, expansion⟩

def Settings.ofToml (text : String) : Except SettingsFailure Settings :=
  match (document? text).bind Settings.ofEntries? with
  | some s => .ok s
  | none => .error .notToml

/-! ## Writing -/

def optionalAssignment {α : Type} (key : String) (f : α → Plain) (v : Option α) :
    List (String × Plain) := (v.map fun a => (key, f a)).toList

def listAssignment (key : String) (l : List String) : List (String × Plain) :=
  if l.isEmpty then [] else [(key, .strings l)]

def Settings.sections (s : Settings) : List Toml.Section :=
  [⟨"parser", optionalAssignment "max_file_size" (fun n => .integer (n : Nat))
      s.parser.maxFileSize⟩,
    ⟨"registry", listAssignment "roots" s.registry.roots ++
      listAssignment "extra_ignore" s.registry.extraIgnore ++
      optionalAssignment "follow_symlinks" .boolean s.registry.followSymlinks⟩,
    ⟨"expansion", optionalAssignment "enabled" .boolean s.expansion.enabled ++
      listAssignment "concern_markers" s.expansion.concernMarkers⟩]

/-- The settings as a document, unless the size is too large for an integer of the format. -/
def Settings.toToml (s : Settings) : Except SettingsFailure String :=
  if s.parser.maxFileSize.any fun n => decide (0x8000000000000000 ≤ n) then .error .notWritable
  else .ok (writeSections s.sections)

end ModelSurvey
