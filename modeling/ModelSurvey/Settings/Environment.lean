import ModelSurvey.Failure
import ModelSurvey.Settings.Basic
import ModelSurvey.Text.Blank
import ModelSurvey.Text.Digits

/-! Overrides of settings by environment variables. The variables are taken in a fixed order, and
those before a faulty one have taken effect when it is reported. A size fits 64 bits. -/
namespace ModelSurvey
set_option autoImplicit false
open Text

/-! ## Values -/

/-- Why a text is no size. -/
inductive SizeFault where
  | empty
  | notDigit
  | tooLarge
deriving DecidableEq, Repr

def SizeFault.message : SizeFault → String
  | empty => "cannot parse integer from empty string"
  | notDigit => "invalid digit found in string"
  | tooLarge => "number too large to fit in target type"

/-- The first number that needs more than 64 bits. -/
def sizeBound : Nat := 0x10000000000000000

/-- Reads further digits; the first of all faults from left to right is reported, and at one digit
that it is none before that the number grows too large. -/
def sizeFrom (acc : Nat) : List Char → Except SizeFault Nat
  | [] => .ok acc
  | c :: r =>
    match digit? 10 c with
    | none => .error .notDigit
    | some d => if acc * 10 + d < sizeBound then sizeFrom (acc * 10 + d) r else .error .tooLarge

/-- A size, with one plus sign allowed in front. -/
def readSize : List Char → Except SizeFault Nat
  | [] => .error .empty
  | ['+'] => .error .notDigit
  | '+' :: r => sizeFrom 0 r
  | cs => sizeFrom 0 cs

def readFlag (cs : List Char) : Except String Bool :=
  if cs = "true".toList then .ok true
  else if cs = "false".toList then .ok false
  else .error "provided string was not \x60true\x60 or \x60false\x60"

/-! ## Overrides -/

/-- A variable, and what its trimmed text does to the settings. -/
structure Override where
  variableName : String
  set : List Char → Settings → Except String Settings

def sizeOverride : Override :=
  ⟨"RBSGEN_PARSER_MAX_FILE_SIZE", fun cs s =>
    ((readSize cs).mapError SizeFault.message).map fun n => { s with parser := ⟨some n⟩ }⟩

def enabledOverride : Override :=
  ⟨"RBSGEN_EXPANSION_ENABLED", fun cs s =>
    (readFlag cs).map fun b => { s with expansion := { s.expansion with enabled := some b } }⟩

def followOverride : Override :=
  ⟨"RBSGEN_REGISTRY_FOLLOW_SYMLINKS", fun cs s =>
    (readFlag cs).map fun b => { s with registry := { s.registry with followSymlinks := some b } }⟩

def overrides : List Override := [sizeOverride, enabledOverride, followOverride]

/-- Applies overrides in turn, up to the first faulty one. -/
def applyOverrides (environment : List (String × String)) :
    List Override → Settings → Settings × Option SettingsFailure
  | [], s => (s, none)
  | o :: r, s =>
    match environment.lookup o.variableName with
    | none => applyOverrides environment r s
    | some raw =>
      match o.set (trim raw.toList) s with
      | .ok s' => applyOverrides environment r s'
      | .error reason => (s, some (.invalid o.variableName reason))

/-- The settings after the overrides of an environment, and what went wrong with them. -/
def Settings.override (environment : List (String × String)) (s : Settings) :
    Settings × Option SettingsFailure := applyOverrides environment overrides s

end ModelSurvey
