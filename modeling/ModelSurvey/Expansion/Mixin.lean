import ModelSurvey.Disk.Read
import ModelSurvey.Registry.Resolve

/-! Mixins: what a module contributes where it is included. Only a concern whose file can be read
contributes, namely the call statements of the blocks of the `included` calls in its own body. What
was looked up, read or loaded once is remembered for the rest of a run. -/
namespace ModelSurvey.Expansion
set_option autoImplicit false

/-- The call statements in the blocks of the `included` calls of a namespace. -/
def includedBodies (t : Table) (space : String) : List Declaration :=
  (t.named space "included").flatMap fun d => (d.block.map Syntax.Block.calls).getD []

/-- A module as far as an include is concerned. -/
structure Mixin where
  name : String
  concern : Bool
  source : Option Path
  bodies : List Declaration

/-- What an include may consult: the known constants, the files, and the size limit for reading. -/
structure Sources where
  registry : Registry
  disk : Disk
  limit : Nat

def Sources.table? (s : Sources) (p : Path) : Option Table :=
  ((s.disk.readSurvey s.limit p).toOption).map Survey.table

/-! ## Memory -/

/-- What a run has looked up so far. Every remembered resolution is the registry's own answer. -/
structure Memory (registry : Registry) where
  resolutions : List ((String × String) × Option Registry.Reference) := []
  mixins : NameMap Mixin := ∅
  tables : List (List Path.Component × Option Table) := []
  sound : ∀ e ∈ resolutions, e.2 = registry.resolve e.1.2 (Name.segments e.1.1) := by simp

namespace Memory

variable {registry : Registry}

/-- What a run knows before it has looked anything up. -/
def fresh : Memory registry := ⟨[], ∅, [], by intro e h; cases h⟩

theorem sound_lookup (m : Memory registry) {space name : String}
    {known : Option Registry.Reference} (h : m.resolutions.lookup (space, name) = some known) :
    known = registry.resolve name (Name.segments space) := by
  obtain ⟨l, k, e, -⟩ := List.lookup_eq_some_iff.1 h
  exact m.sound ((space, name), known) (by rw [e]; simp)

/-- What a name denotes in a namespace, from memory if it was asked before. -/
def resolve (m : Memory registry) (space name : String) :
    Option Registry.Reference × Memory registry :=
  match m.resolutions.lookup (space, name) with
  | some known => (known, m)
  | none =>
    let found := registry.resolve name (Name.segments space)
    (found, { m with
      resolutions := ((space, name), found) :: m.resolutions
      sound := fun e h => by
        rcases List.mem_cons.1 h with rfl | h
        · rfl
        · exact m.sound e h })

theorem resolve_fst (m : Memory registry) (space name : String) :
    (m.resolve space name).1 = registry.resolve name (Name.segments space) := by
  rw [resolve]
  split
  · rename_i known h
    exact m.sound_lookup h
  · rfl

end Memory

variable (s : Sources)

/-- The declarations of a file, from memory if it was read before. -/
def recallTable (m : Memory s.registry) (p : Path) : Option Table × Memory s.registry :=
  match m.tables.lookup p.components with
  | some known => (known, m)
  | none =>
    let read := s.table? p
    (read, { m with tables := (p.components, read) :: m.tables })

def loadMixin (m : Memory s.registry) (ref : Registry.Reference) : Mixin × Memory s.registry :=
  if !ref.entry.isConcern then (⟨ref.name, false, ref.entry.source, []⟩, m)
  else
    match ref.entry.source with
    | none => (⟨ref.name, true, none, []⟩, m)
    | some p =>
      let read := recallTable s m p
      match read.1 with
      | none => (⟨ref.name, true, some p, []⟩, read.2)
      | some t => (⟨ref.name, true, some p, includedBodies t ref.name⟩, read.2)

/-- The mixin that a reference stands for, from memory if it was loaded before. -/
def recallMixin (m : Memory s.registry) (ref : Registry.Reference) :
    Mixin × Memory s.registry :=
  match m.mixins.get? ref.name with
  | some known => (known, m)
  | none =>
    let loaded := loadMixin s m ref
    (loaded.1, { loaded.2 with mixins := loaded.2.mixins.insert ref.name loaded.1 })

end ModelSurvey.Expansion
