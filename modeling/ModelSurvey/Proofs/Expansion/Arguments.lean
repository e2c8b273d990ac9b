import Mathlib.Data.List.Basic
import ModelSurvey.Expansion.Bucket
import ModelSurvey.Proofs.Expansion.Recollection

/-! The arguments of an include, taken together. They name modules; those not visited before are
visited, each once and in the order of the arguments, and their bodies follow one another in that
order. What the bodies are is up to the memory that the arguments leave behind. -/
namespace ModelSurvey.Expansion
set_option autoImplicit false
open Syntax

/-! ## Named modules -/

/-- The module that an argument names, seen from a namespace. -/
def moduleOf? (r : Registry) (space : String) (argument : Node) : Option Registry.Reference :=
  match argument.evaluate with
  | some (.string name) => r.resolve name (Name.segments space)
  | _ => none

/-- The full names of the modules that some arguments name, in order. -/
def namedModules (r : Registry) (space : String) (arguments : List Node) : List String :=
  arguments.filterMap fun n => (moduleOf? r space n).map (·.name)

theorem get?_of_resolve {r : Registry} {name : String} {context : List String}
    {ref : Registry.Reference} (h : r.resolve name context = some ref) :
    r.get? ref.name = some ref.entry := by
  obtain ⟨c, -, hc⟩ := List.exists_of_findSome?_eq_some h
  obtain ⟨e, he, rfl⟩ := Option.map_eq_some_iff.1 hc
  exact he

theorem get?_of_moduleOf? {r : Registry} {space : String} {argument : Node}
    {ref : Registry.Reference} (h : moduleOf? r space argument = some ref) :
    r.get? ref.name = some ref.entry := by
  unfold moduleOf? at h
  split at h
  · exact get?_of_resolve h
  · cases h

/-- The names of a list that do not occur before, neither in `visited` nor in the list. -/
def firsts (visited : List String) : List String → List String
  | [] => []
  | m :: r => if m ∈ visited then firsts visited r else m :: firsts (m :: visited) r

theorem mem_firsts {visited names : List String} {m : String} :
    m ∈ firsts visited names ↔ m ∈ names ∧ m ∉ visited := by
  induction names generalizing visited with
  | nil => simp [firsts]
  | cons k r ih =>
    rw [firsts]
    split
    · rename_i hk
      rw [ih, List.mem_cons]
      constructor
      · rintro ⟨hm, hv⟩
        exact ⟨Or.inr hm, hv⟩
      · rintro ⟨rfl | hm, hv⟩
        · exact absurd hk hv
        · exact ⟨hm, hv⟩
    · rename_i hk
      rw [List.mem_cons, ih, List.mem_cons, List.mem_cons]
      constructor
      · rintro (rfl | ⟨hm, hv⟩)
        · exact ⟨Or.inl rfl, hk⟩
        · exact ⟨Or.inr hm, fun h => hv (Or.inr h)⟩
      · rintro ⟨rfl | hm, hv⟩
        · exact Or.inl rfl
        · by_cases he : m = k
          · exact Or.inl he
          · exact Or.inr ⟨hm, fun h => h.elim he hv⟩

theorem nodup_firsts (visited names : List String) : (firsts visited names).Nodup := by
  induction names generalizing visited with
  | nil => exact List.nodup_nil
  | cons k r ih =>
    rw [firsts]
    split
    · exact ih visited
    · refine List.nodup_cons.2 ⟨fun h => ?_, ih (k :: visited)⟩
      exact (mem_firsts.1 h).2 (List.mem_cons_self ..)

theorem firsts_eq_self {visited names : List String} (h : names.Nodup)
    (hv : ∀ m ∈ names, m ∉ visited) : firsts visited names = names := by
  induction names generalizing visited with
  | nil => rfl
  | cons k r ih =>
    obtain ⟨hk, hr⟩ := List.nodup_cons.1 h
    obtain ⟨hkv, hrv⟩ := List.forall_mem_cons.1 hv
    rw [firsts, if_neg hkv, ih hr fun m hm hmem => ?_]
    rcases List.mem_cons.1 hmem with rfl | hmem
    · exact hk hm
    · exact hrv m hm hmem

/-! ## One argument -/

variable (s : Sources) (space : String)

/-- An argument that names no module, or a visited one, brings nothing. Any other brings what is
recalled of its module, and visits it. -/
theorem takeArgument_steps (g : Gathering s.registry) (argument : Node) :
    ∃ m : Memory s.registry, m.tables = g.memory.tables ∧ m.mixins = g.memory.mixins ∧
      ((takeArgument s space g argument = { g with memory := m } ∧
          ∀ ref, moduleOf? s.registry space argument = some ref → ref.name ∈ g.visited) ∨
        ∃ ref, moduleOf? s.registry space argument = some ref ∧ ref.name ∉ g.visited ∧
          takeArgument s space g argument = ⟨(recallMixin s m ref).2, ref.name :: g.visited,
            g.bodies ++ (recallMixin s m ref).1.bodies⟩) := by
  unfold takeArgument moduleOf?
  cases argument.evaluate with
  | none => exact ⟨g.memory, rfl, rfl, Or.inl ⟨rfl, by simp⟩⟩
  | some v =>
    cases v with
    | string name =>
      refine ⟨(g.memory.resolve space name).2, Memory.tables_resolve ..,
        Memory.mixins_resolve .., ?_⟩
      simp only [Memory.resolve_fst]
      cases hr : s.registry.resolve name (Name.segments space) with
      | none => exact Or.inl ⟨rfl, by simp⟩
      | some ref =>
        by_cases hv : ref.name ∈ g.visited
        · exact Or.inl ⟨by simp [hv], by simpa using hv⟩
        · exact Or.inr ⟨ref, rfl, hv, by simp [hv]⟩
    | _ => exact ⟨g.memory, rfl, rfl, Or.inl ⟨rfl, by simp⟩⟩

theorem extends_takeArgument (g : Gathering s.registry) (argument : Node) :
    g.memory.Extends (takeArgument s space g argument).memory := by
  obtain ⟨m, ht, hx, h⟩ := takeArgument_steps s space g argument
  have hm : g.memory.Extends m := ⟨fun c t h => ht ▸ h, fun name x h => hx ▸ h⟩
  rcases h with ⟨e, -⟩ | ⟨ref, -, -, e⟩
  · rw [e]
    exact hm
  · rw [e]
    exact hm.trans (extends_recallMixin s m ref)

theorem Faithful.takeArgument {s : Sources} (space : String) {g : Gathering s.registry}
    (h : Faithful s g.memory) (argument : Node) :
    Faithful s (takeArgument s space g argument).memory := by
  obtain ⟨m, ht, hx, hstep⟩ := takeArgument_steps s space g argument
  have hm : Faithful s m := h.of_eq ht hx
  rcases hstep with ⟨e, -⟩ | ⟨ref, href, -, e⟩
  · rw [e]
    exact hm
  · rw [e]
    exact hm.recallMixin ref (get?_of_moduleOf? href)

/-! ## All arguments -/

theorem extends_foldl_takeArgument (g : Gathering s.registry) (arguments : List Node) :
    g.memory.Extends (arguments.foldl (takeArgument s space) g).memory := by
  induction arguments generalizing g with
  | nil => exact Memory.Extends.refl _
  | cons n r ih =>
    rw [List.foldl_cons]
    exact (extends_takeArgument s space g n).trans (ih _)

/-- A property of memories that each argument preserves is preserved by a list of them. -/
theorem foldl_takeArgument_preserves {P : Memory s.registry → Prop}
    (hP : ∀ g n, P g.memory → P (takeArgument s space g n).memory) {g : Gathering s.registry}
    (h : P g.memory) (arguments : List Node) :
    P (arguments.foldl (takeArgument s space) g).memory := by
  induction arguments generalizing g with
  | nil => exact h
  | cons n r ih => exact ih (hP g n h)

theorem foldl_takeArgument (g : Gathering s.registry) (arguments : List Node) :
    let after := arguments.foldl (takeArgument s space) g
    let new := firsts g.visited (namedModules s.registry space arguments)
    after.visited = new.reverse ++ g.visited ∧
      after.bodies = g.bodies ++ new.flatMap after.memory.bodies ∧
      ∀ m ∈ new, after.memory.Holds m := by
  induction arguments generalizing g with
  | nil => simp [namedModules, firsts]
  | cons n r ih =>
    obtain ⟨m, -, -, hstep⟩ := takeArgument_steps s space g n
    rcases hstep with ⟨e, hseen⟩ | ⟨ref, href, hnew, e⟩
    · have hfirsts : firsts g.visited (namedModules s.registry space (n :: r)) =
          firsts g.visited (namedModules s.registry space r) := by
        cases hm : moduleOf? s.registry space n with
        | none => simp [namedModules, hm]
        | some ref => simp [namedModules, hm, firsts, hseen ref hm]
      have hrest := ih { g with memory := m }
      rw [← e] at hrest
      simp only [List.foldl_cons, hfirsts]
      rw [e] at hrest ⊢
      exact hrest
    · have hfirsts : firsts g.visited (namedModules s.registry space (n :: r)) =
          ref.name :: firsts (ref.name :: g.visited) (namedModules s.registry space r) := by
        simp [namedModules, href, firsts, hnew]
      have hext := extends_foldl_takeArgument s space (takeArgument s space g n) r
      have hrest := ih (takeArgument s space g n)
      rw [e] at hext hrest
      obtain ⟨hvisited, hbodies, hholds⟩ := hrest
      simp only [List.foldl_cons, hfirsts, e]
      refine ⟨?_, ?_, ?_⟩
      · rw [hvisited]
        simp
      · -- The bodies just recalled are those that the memory still has in the end.
        have hkept := hext.bodies_eq (holds_recallMixin s m ref)
        rw [bodies_recallMixin] at hkept
        rw [hbodies, List.flatMap_cons, hkept, List.append_assoc]
      · intro k hk
        rcases List.mem_cons.1 hk with rfl | hk
        · exact hext.holds (holds_recallMixin s m ref)
        · exact hholds k hk

/-- The modules that an include visits. -/
def newModules (visited : List String) (i : Declaration) : List String :=
  firsts visited (namedModules s.registry space i.arguments)

variable {s space} in
theorem mem_newModules {visited : List String} {i : Declaration} {m : String} :
    m ∈ newModules s space visited i ↔
      m ∈ namedModules s.registry space i.arguments ∧ m ∉ visited := mem_firsts

variable (memory : Memory s.registry) (visited : List String) (i : Declaration)

theorem visited_takeArguments :
    (takeArguments s space memory visited i.arguments).visited =
      (newModules s space visited i).reverse ++ visited :=
  (foldl_takeArgument s space ⟨memory, visited, []⟩ i.arguments).1

theorem bodies_takeArguments :
    (takeArguments s space memory visited i.arguments).bodies =
      (newModules s space visited i).flatMap
        (takeArguments s space memory visited i.arguments).memory.bodies :=
  (foldl_takeArgument s space ⟨memory, visited, []⟩ i.arguments).2.1

theorem holds_takeArguments :
    ∀ m ∈ newModules s space visited i,
      (takeArguments s space memory visited i.arguments).memory.Holds m :=
  (foldl_takeArgument s space ⟨memory, visited, []⟩ i.arguments).2.2

theorem extends_takeArguments :
    memory.Extends (takeArguments s space memory visited i.arguments).memory :=
  extends_foldl_takeArgument s space ⟨memory, visited, []⟩ i.arguments

theorem Faithful.takeArguments {s : Sources} {memory : Memory s.registry}
    (h : Faithful s memory) (space : String) (visited : List String) (i : Declaration) :
    Faithful s (takeArguments s space memory visited i.arguments).memory :=
  foldl_takeArgument_preserves s space (fun _ n hg => hg.takeArgument space n)
    (g := ⟨memory, visited, []⟩) h i.arguments

theorem Faithful.bodies_takeArguments {s : Sources} {memory : Memory s.registry}
    (h : Faithful s memory) (ha : s.ReadsAlike) (space : String) (visited : List String)
    (i : Declaration) : (Expansion.takeArguments s space memory visited i.arguments).bodies =
      (newModules s space visited i).flatMap s.bodies := by
  rw [Expansion.bodies_takeArguments]
  refine List.flatMap_congr fun m hm => ?_
  exact (h.takeArguments space visited i).bodies_eq ha
    (holds_takeArguments s space memory visited i m hm)

end ModelSurvey.Expansion
