import ModelSurvey.Name

/-! Settings of a survey, in three sections. A value that is not set has a default, which the
functions named `effective…` supply; an empty list counts as not set. -/
namespace ModelSurvey
set_option autoImplicit false

structure ParserSettings where
  maxFileSize : Option Nat := none
deriving DecidableEq, Repr, Inhabited

structure RegistrySettings where
  roots : List String := []
  extraIgnore : List String := []
  followSymlinks : Option Bool := none
deriving DecidableEq, Repr, Inhabited

structure ExpansionSettings where
  enabled : Option Bool := none
  concernMarkers : List String := []
deriving DecidableEq, Repr, Inhabited

structure Settings where
  parser : ParserSettings := {}
  registry : RegistrySettings := {}
  expansion : ExpansionSettings := {}
deriving DecidableEq, Repr, Inhabited

def ParserSettings.effectiveMaxFileSize (s : ParserSettings) : Nat := s.maxFileSize.getD 1048576

def RegistrySettings.effectiveRoots (s : RegistrySettings) : List String :=
  if s.roots.isEmpty then ["app/models"] else s.roots

def RegistrySettings.effectiveFollowSymlinks (s : RegistrySettings) : Bool :=
  s.followSymlinks.getD false

def ExpansionSettings.effectiveEnabled (s : ExpansionSettings) : Bool := s.enabled.getD true

/-- The modules whose `extend` marks a concern, without leading `::`. -/
def ExpansionSettings.effectiveConcernMarkers (s : ExpansionSettings) : List String :=
  if s.concernMarkers.isEmpty then ["ActiveSupport::Concern"]
  else s.concernMarkers.map Name.unroot

end ModelSurvey
