import ModelSurvey.Registry.Basic

/-! Looking up a constant from inside a context: the innermost enclosing namespace in which the name
is known wins, and a rooted name is looked up at the top level only. -/
namespace ModelSurvey.Registry
set_option autoImplicit false

/-- A known constant, under the full name that it was found by. -/
structure Reference where
  name : String
  entry : Entry
deriving DecidableEq, Repr, Inhabited

def find? (r : Registry) (name : String) : Option Reference :=
  (r.get? name).map fun e => ⟨name, e⟩

/-- What `name` denotes inside `context`. -/
def resolve (r : Registry) (name : String) (context : List String) : Option Reference :=
  (Name.candidates name context).findSome? r.find?

theorem name_mem_of_resolve {r : Registry} {name : String} {context : List String}
    {ref : Reference} (h : r.resolve name context = some ref) : ref.name ∈ r.names := by
  obtain ⟨c, -, hc⟩ := List.exists_of_findSome?_eq_some h
  obtain ⟨e, he, rfl⟩ := Option.map_eq_some_iff.1 hc
  exact mem_names_iff.2 ⟨e, he⟩

end ModelSurvey.Registry
