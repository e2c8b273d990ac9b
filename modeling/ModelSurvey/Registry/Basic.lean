import ModelSurvey.Name
import ModelSurvey.NameMap
import ModelSurvey.Path
import ModelSurvey.Syntax.Node

/-! The registry of known classes and modules. It is keyed by full names without leading `::`; a
later definition replaces an earlier one of the same name. -/
namespace ModelSurvey
set_option autoImplicit false
open Syntax

namespace Registry

/-- A known class or module, the file that defines it, and whether it is meant to be mixed in. -/
structure Entry where
  name : String
  kind : NamespaceKind
  source : Option Path
  concern : Bool
deriving DecidableEq, Repr, Inhabited

/-- Only modules can be concerns. -/
def Entry.isConcern (e : Entry) : Bool := e.kind == .moduleBody && e.concern

end Registry

structure Registry where
  known : NameMap Registry.Entry

namespace Registry

def empty : Registry := ⟨∅⟩

instance : EmptyCollection Registry := ⟨empty⟩

instance : Inhabited Registry := ⟨empty⟩

def get? (r : Registry) (name : String) : Option Entry := r.known.get? name

def contains (r : Registry) (name : String) : Bool := r.known.contains name

def define (r : Registry) (e : Entry) : Registry :=
  ⟨r.known.insert (Name.unroot e.name) { e with name := Name.unroot e.name }⟩

def defineModule (r : Registry) (name : String) (source : Option Path) (concern : Bool) : Registry :=
  r.define ⟨name, .moduleBody, source, concern⟩

def defineClass (r : Registry) (name : String) (source : Option Path) : Registry :=
  r.define ⟨name, .classBody, source, false⟩

/-- The entry unless its name is known already. -/
def defineNew (r : Registry) (e : Entry) : Registry := if r.contains e.name then r else r.define e

def names (r : Registry) : List String := r.known.keys

/-- The entries in order of their names. -/
def entries (r : Registry) : List Entry := r.known.values

def size (r : Registry) : Nat := r.known.size

def isEmpty (r : Registry) : Bool := r.known.isEmpty

def ofList (l : List Entry) : Registry := l.foldl define ∅

theorem get?_define_self (r : Registry) (e : Entry) :
    (r.define e).get? (Name.unroot e.name) = some { e with name := Name.unroot e.name } :=
  NameMap.get?_insert_self ..

theorem get?_define_of_ne (r : Registry) (e : Entry) {name : String}
    (h : name ≠ Name.unroot e.name) : (r.define e).get? name = r.get? name :=
  NameMap.get?_insert_of_ne _ _ h

theorem mem_names_iff {r : Registry} {name : String} :
    name ∈ r.names ↔ ∃ e, r.get? name = some e := NameMap.mem_keys_iff

end Registry

end ModelSurvey
