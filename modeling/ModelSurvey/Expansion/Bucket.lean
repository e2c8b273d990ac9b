import ModelSurvey.Expansion.Mixin

/-! Expansion of `include`. As long as a bucket holds an `include`, the first one is removed and the
bodies of the modules it names are put in its place, which may bring further ones. A module is
spliced at most once in a bucket, so a round either visits a new module of the registry or leaves
one `include` less. Arguments that are no constant, or that no module answers to, add nothing. -/
namespace ModelSurvey.Expansion
set_option autoImplicit false
open Syntax

/-- How many includes were replaced, and how many declarations were put in their places. -/
structure Stats where
  includes : Nat := 0
  spliced : Nat := 0
deriving DecidableEq, Repr, Inhabited

def Stats.add (a b : Stats) : Stats := ⟨a.includes + b.includes, a.spliced + b.spliced⟩

def isInclude (d : Declaration) : Bool := d.name == "include"

/-- The declarations before the first include, the include, and those after it. -/
def splitInclude : List Declaration → Option (List Declaration × Declaration × List Declaration)
  | [] => none
  | d :: r =>
    if isInclude d then some ([], d, r)
    else (splitInclude r).map fun (pre, i, post) => (d :: pre, i, post)

theorem eq_of_splitInclude {l pre post : List Declaration} {i : Declaration}
    (h : splitInclude l = some (pre, i, post)) : l = pre ++ i :: post ∧ isInclude i = true := by
  induction l generalizing pre with
  | nil => simp [splitInclude] at h
  | cons d r ih =>
    rw [splitInclude] at h
    split at h
    · rename_i hd
      simp only [Option.some.injEq, Prod.mk.injEq] at h
      obtain ⟨rfl, rfl, rfl⟩ := h
      exact ⟨rfl, hd⟩
    · obtain ⟨⟨p, j, q⟩, hr, e⟩ := Option.map_eq_some_iff.1 h
      simp only [Prod.mk.injEq] at e
      obtain ⟨rfl, rfl, rfl⟩ := e
      obtain ⟨rfl, hi⟩ := ih hr
      exact ⟨rfl, hi⟩

/-! ## The arguments of one include -/

/-- The modules visited so far in a bucket, and the bodies that one include brings. -/
structure Gathering (registry : Registry) where
  memory : Memory registry
  visited : List String
  bodies : List Declaration

variable (s : Sources)

def takeArgument (space : String) (g : Gathering s.registry) (argument : Node) :
    Gathering s.registry :=
  match argument.evaluate with
  | some (.string name) =>
    let asked := g.memory.resolve space name
    match asked.1 with
    | none => { g with memory := asked.2 }
    | some ref =>
      if ref.name ∈ g.visited then { g with memory := asked.2 }
      else
        let mixin := recallMixin s asked.2 ref
        ⟨mixin.2, ref.name :: g.visited, g.bodies ++ mixin.1.bodies⟩
  | _ => g

def takeArguments (space : String) (memory : Memory s.registry) (visited : List String)
    (arguments : List Node) : Gathering s.registry :=
  arguments.foldl (takeArgument s space) ⟨memory, visited, []⟩

/-- The number of known names not visited yet. -/
def unvisited (registry : Registry) (visited : List String) : Nat :=
  registry.names.countP fun name => decide (name ∉ visited)

theorem unvisited_cons_lt {registry : Registry} {visited : List String} {name : String}
    (hk : name ∈ registry.names) (hv : name ∉ visited) :
    unvisited registry (name :: visited) < unvisited registry visited := by
  have hle : ∀ l : List String, l.countP (fun n => decide (n ∉ name :: visited)) ≤
      l.countP (fun n => decide (n ∉ visited)) := fun l => by
    refine List.countP_mono_left fun n _ h => ?_
    simp only [decide_eq_true_eq, List.mem_cons, not_or] at h ⊢
    exact h.2
  unfold unvisited
  obtain ⟨l, r, e⟩ := List.append_of_mem hk
  rw [e, List.countP_append, List.countP_append, List.countP_cons_of_neg (by simp),
    List.countP_cons_of_pos (by simpa using hv)]
  have h1 := hle l
  have h2 := hle r
  omega

/-- One argument brings nothing, or visits a known name that was not visited. -/
theorem takeArgument_cases (space : String) (g : Gathering s.registry) (argument : Node) :
    ((takeArgument s space g argument).visited = g.visited ∧
      (takeArgument s space g argument).bodies = g.bodies) ∨
    unvisited s.registry (takeArgument s space g argument).visited <
      unvisited s.registry g.visited := by
  unfold takeArgument
  split
  · rename_i name _
    simp only
    split
    · exact Or.inl ⟨rfl, rfl⟩
    · rename_i ref href
      split
      · exact Or.inl ⟨rfl, rfl⟩
      · rename_i hv
        rw [Memory.resolve_fst] at href
        exact Or.inr (unvisited_cons_lt (Registry.name_mem_of_resolve href) hv)
  · exact Or.inl ⟨rfl, rfl⟩

theorem takeArguments_cases (space : String) (g : Gathering s.registry) (arguments : List Node) :
    ((arguments.foldl (takeArgument s space) g).visited = g.visited ∧
      (arguments.foldl (takeArgument s space) g).bodies = g.bodies) ∨
    unvisited s.registry (arguments.foldl (takeArgument s space) g).visited <
      unvisited s.registry g.visited := by
  induction arguments generalizing g with
  | nil => exact Or.inl ⟨rfl, rfl⟩
  | cons n r ih =>
    rw [List.foldl_cons]
    rcases takeArgument_cases s space g n with ⟨hv, hb⟩ | hlt
    · rcases ih (takeArgument s space g n) with ⟨hv', hb'⟩ | hlt'
      · exact Or.inl ⟨hv'.trans hv, hb'.trans hb⟩
      · exact Or.inr (by rwa [hv] at hlt')
    · rcases ih (takeArgument s space g n) with ⟨hv', _⟩ | hlt'
      · exact Or.inr (by rwa [hv'])
      · exact Or.inr (Nat.lt_trans hlt' hlt)

/-! ## Buckets -/

/-- An expanded bucket, the modules visited in it, and what was learnt on the way. -/
structure Outcome (registry : Registry) where
  bucket : List Declaration
  visited : List String
  memory : Memory registry
  stats : Stats

/-- Replaces includes, first one first, until none is left. -/
def expandFrom (space : String) (memory : Memory s.registry) (visited : List String)
    (bucket : List Declaration) : Outcome s.registry :=
  match _h : splitInclude bucket with
  | none => ⟨bucket, visited, memory, {}⟩
  | some (pre, i, post) =>
    let g := takeArguments s space memory visited i.arguments
    let rest := expandFrom space g.memory g.visited (pre ++ g.bodies ++ post)
    { rest with stats := Stats.add ⟨1, g.bodies.length⟩ rest.stats }
termination_by (unvisited s.registry visited, bucket.countP isInclude)
decreasing_by
  obtain ⟨e, hi⟩ := eq_of_splitInclude _h
  rcases takeArguments_cases s space ⟨memory, visited, []⟩ i.arguments with ⟨hv, hb⟩ | hlt
  · have hv' : g.visited = visited := hv
    have hb' : g.bodies = [] := hb
    rw [hv', hb', e]
    refine Prod.Lex.right _ ?_
    simp [List.countP_append, List.countP_cons_of_pos hi]
  · exact Prod.Lex.left _ _ hlt

def expandBucket (space : String) (memory : Memory s.registry) (bucket : List Declaration) :
    Outcome s.registry := expandFrom s space memory [] bucket

/-! ## Tables -/

def expandTable (memory : Memory s.registry) (t : Table) :
    (Memory s.registry × Stats) × Table :=
  let expanded := t.buckets.mapAccum (fun state space bucket =>
    let o := expandBucket s space state.1 bucket
    ((o.memory, Stats.add state.2 o.stats), o.bucket)) (memory, ({} : Stats))
  (expanded.1, ⟨expanded.2⟩)

def expand (enabled : Bool) (memory : Memory s.registry) (t : Table) :
    (Memory s.registry × Stats) × Table :=
  if enabled then expandTable s memory t else ((memory, {}), t)

end ModelSurvey.Expansion
