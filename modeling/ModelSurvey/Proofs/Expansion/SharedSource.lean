import ModelSurvey.Proofs.Disk.Spelling
import ModelSurvey.Proofs.Expansion.History
import ModelSurvey.Proofs.Syntax.Nodes

/-! Two concerns with one source. The table of a source is kept by the components of its path, so
the first include that reads it decides what every later one brings, whatever spelling those have.
With a slash behind it the path of a file leads nowhere, and then both concerns bring nothing. -/
namespace ModelSurvey.Expansion
set_option autoImplicit false
open Syntax

variable {s : Sources}

/-! ## Includes by full name -/

/-- An include of constants from the top level. -/
def rootedInclude (names : List String) : Declaration :=
  ⟨none, "include", names.map fun name => .constantPath none name, none, 1⟩

theorem moduleOf?_rooted (r : Registry) (space name : String) :
    moduleOf? r space (.constantPath none name) = r.find? name := by
  have hmark : Name.afterMark? (Name.mark ++ name) = some name := by
    simp [Name.afterMark?, Name.mark]
  have hcandidates : Name.candidates (Name.mark ++ name) (Name.segments space) = [name] := by
    rw [Name.candidates, hmark]
  simp only [moduleOf?, Node.evaluate, Node.path?, Option.map_some, Registry.resolve, hcandidates]
  cases h : r.find? name with
  | none => simp [h]
  | some ref => simp [h]

theorem namedModules_rootedInclude {names : List String} (space : String)
    (h : ∀ name ∈ names, ∃ p, s.ConcernAt name p) :
    namedModules s.registry space (rootedInclude names).arguments = names := by
  induction names with
  | nil => rfl
  | cons name names ih =>
    obtain ⟨⟨p, e, he, -, -⟩, hnames⟩ := List.forall_mem_cons.1 h
    have hrest := ih hnames
    simp only [namedModules, rootedInclude, List.map_cons] at hrest ⊢
    rw [List.filterMap_cons_some (b := name), hrest]
    rw [moduleOf?_rooted, Registry.find?, he]
    rfl

theorem newModules_rootedInclude {names : List String} (space : String)
    (h : ∀ name ∈ names, ∃ p, s.ConcernAt name p) (hnodup : names.Nodup) :
    newModules s space [] (rootedInclude names) = names := by
  rw [newModules, namedModules_rootedInclude space h]
  exact firsts_eq_self hnodup fun _ _ => List.not_mem_nil

theorem takeArgument_rooted {g : Gathering s.registry} (h : Faithful s g.memory) (space : String)
    {name : String} {p : Path} (hp : s.ConcernAt name p) (hv : name ∉ g.visited) :
    let after := takeArgument s space g (.constantPath none name)
    after.visited = name :: g.visited ∧
      after.bodies =
        g.bodies ++ ((recallTable s g.memory p).1.map (includedBodies · name)).getD [] ∧
      after.memory.tables.lookup p.components = some (recallTable s g.memory p).1 := by
  obtain ⟨e, he, hc, hs⟩ := hp
  have hmodule : moduleOf? s.registry space (.constantPath none name) = some ⟨name, e⟩ := by
    rw [moduleOf?_rooted, Registry.find?, he]
    rfl
  obtain ⟨m, ht, hx, hstep⟩ := takeArgument_steps s space g (.constantPath none name)
  have hm : Faithful s m := h.of_eq ht hx
  have hread : (recallTable s m p).1 = (recallTable s g.memory p).1 := by
    simp only [recallTable, ht]
    split <;> rfl
  rcases hstep with ⟨-, hseen⟩ | ⟨ref, href, -, hafter⟩
  · exact absurd (hseen _ hmodule) hv
  · rw [hmodule, Option.some.injEq] at href
    subst href
    have hlookup := hm.lookup_recallMixin ⟨name, e⟩ he hc hs
    have hbodies := (hm.recallMixin ⟨name, e⟩ he).bodies_of_concernAt ⟨e, he, hc, hs⟩
      (holds_recallMixin s m ⟨name, e⟩)
    rw [bodies_recallMixin, Memory.read, hlookup, Option.join_some, hread] at hbodies
    rw [hread] at hlookup
    dsimp only
    rw [hafter]
    exact ⟨rfl, congrArg (g.bodies ++ ·) hbodies, hlookup⟩

theorem bodies_rootedInclude {memory : Memory s.registry} (h : Faithful s memory) (space : String)
    {visited : List String} {name : String} {p : Path} (hp : s.ConcernAt name p)
    (hv : name ∉ visited) :
    (takeArguments s space memory visited (rootedInclude [name]).arguments).bodies =
      ((recallTable s memory p).1.map (includedBodies · name)).getD [] := by
  have hone := takeArgument_rooted (g := ⟨memory, visited, []⟩) h space hp hv
  exact hone.2.1

theorem bodies_rootedInclude_fresh (space : String) {visited : List String} {name : String}
    {p : Path} (hp : s.ConcernAt name p) (hv : name ∉ visited) :
    (takeArguments s space .fresh visited (rootedInclude [name]).arguments).bodies =
      s.bodiesIn p name := bodies_rootedInclude (faithful_fresh s) space hp hv

theorem lookup_expandBucket_rootedInclude (space : String) {name : String} {p : Path}
    (hp : s.ConcernAt name p) :
    (expandBucket s space .fresh [rootedInclude [name]]).memory.tables.lookup p.components =
      some (s.table? p) := by
  have hone := takeArgument_rooted (g := ⟨.fresh, [], []⟩) (faithful_fresh s) space hp (by simp)
  rw [expandBucket, expandFrom_cons_of_include s space .fresh [] [] rfl]
  exact (extends_expandFrom s space _ _ _).tables _ _ hone.2.2

theorem bodies_rootedInclude_pair (space : String) {m n : String} {p q : Path}
    (hm : s.ConcernAt m p) (hn : s.ConcernAt n q) (hne : n ≠ m) (h : p.components = q.components) :
    (takeArguments s space .fresh [] (rootedInclude [m, n]).arguments).bodies =
      s.bodiesIn p m ++ s.bodiesIn p n := by
  obtain ⟨hvisited, hbodies, hlookup⟩ :=
    takeArgument_rooted (g := ⟨.fresh, [], []⟩) (faithful_fresh s) space hm (by simp)
  have hfaithful := Faithful.takeArgument space (g := ⟨.fresh, [], []⟩) (faithful_fresh s)
    (.constantPath none m)
  have htwo := takeArgument_rooted hfaithful space hn (by rw [hvisited]; simpa using hne)
  have hread : (recallTable s (takeArgument s space ⟨.fresh, [], []⟩ (.constantPath none m)).memory
      q).1 = s.table? p := by
    rw [h] at hlookup
    rw [recallTable, hlookup]
    rfl
  rw [hbodies, hread] at htwo
  exact htwo.2.1

theorem bodies_after_rootedInclude (space : String) {visited : List String} {m n : String}
    {p q : Path} (hm : s.ConcernAt m p) (hn : s.ConcernAt n q) (hv : n ∉ visited)
    (h : p.components = q.components) :
    (takeArguments s space (expandBucket s space .fresh [rootedInclude [m]]).memory visited
      (rootedInclude [n]).arguments).bodies = s.bodiesIn p n := by
  have hlookup := lookup_expandBucket_rootedInclude space hm
  have hfaithful : Faithful s (expandBucket s space .fresh [rootedInclude [m]]).memory :=
    (faithful_fresh s).expandFrom space [] _
  rw [bodies_rootedInclude hfaithful space hn hv, recallTable, ← h, hlookup]
  rfl

/-! ## What an include leaves in its bucket -/

theorem spliced_expandFrom_eq_zero_iff (space : String) (memory : Memory s.registry)
    (visited : List String) {i : Declaration} (h : isInclude i = true) :
    (expandFrom s space memory visited [i]).stats.spliced = 0 ↔
      (takeArguments s space memory visited i.arguments).bodies = [] := by
  rw [expandFrom_cons_of_include s space memory visited [] h]
  simp only [Stats.add, List.append_nil]
  constructor
  · intro hzero
    exact List.length_eq_zero_iff.1 (by omega)
  · intro hnil
    rw [hnil, expandFrom_of_none s space _ _ rfl]
    rfl

theorem spliced_expandBucket_eq_zero_iff (space : String) (memory : Memory s.registry)
    {i : Declaration} (h : isInclude i = true) :
    (expandBucket s space memory [i]).stats.spliced = 0 ↔
      (takeArguments s space memory [] i.arguments).bodies = [] :=
  spliced_expandFrom_eq_zero_iff space memory [] h

theorem bucket_expandBucket_include (space : String) (memory : Memory s.registry)
    {i : Declaration} (hi : isInclude i = true)
    (h : ∀ d ∈ (takeArguments s space memory [] i.arguments).bodies, isInclude d = false) :
    (expandBucket s space memory [i]).bucket =
      (takeArguments s space memory [] i.arguments).bodies := by
  rw [expandBucket, expandFrom_cons_of_include s space memory [] [] hi]
  dsimp only
  rw [List.append_nil, expandFrom_of_none s space _ _ (splitInclude_eq_none_iff.2 h)]

/-! ## Two spellings -/

theorem Sources.table?_eq {p q : Path} {t u : Table} (h : p.components = q.components)
    (hp : s.table? p = some t) (hq : s.table? q = some u) : t = u := by
  obtain ⟨x, hx, rfl⟩ := Option.map_eq_some_iff.1 hp
  obtain ⟨y, hy, rfl⟩ := Option.map_eq_some_iff.1 hq
  rw [Disk.readSurvey_eq_of_components_eq h (toOption_eq_some_iff.1 hx)
    (toOption_eq_some_iff.1 hy)]

/-- Two spellings of a path differ in what they give a concern only if one of them gives nothing. -/
theorem Sources.bodiesIn_eq {p q : Path} (h : p.components = q.components) {name : String}
    (hnil : s.bodiesIn p name = [] ↔ s.bodiesIn q name = []) :
    s.bodiesIn p name = s.bodiesIn q name := by
  cases hp : s.table? p with
  | none =>
    have hempty := Sources.bodiesIn_of_none hp name
    rw [hempty, hnil.1 hempty]
  | some t =>
    cases hq : s.table? q with
    | none =>
      have hempty := Sources.bodiesIn_of_none hq name
      rw [hempty, hnil.2 hempty]
    | some u => rw [Sources.bodiesIn, Sources.bodiesIn, hp, hq, Sources.table?_eq h hp hq]

/-- Spellings make no difference if a concern that brings nothing leaves open what the next concern
with its source brings. -/
theorem readsAlike_of_silent
    (h : ∀ m n p q, s.ConcernAt m p → s.ConcernAt n q → n ≠ m → p.components = q.components →
      s.bodiesIn p m = [] → (s.bodiesIn p n = [] ↔ s.bodiesIn q n = [])) : s.ReadsAlike := by
  intro m n p q hm hn hcomp
  by_cases hne : n = m
  · subst hne
    rw [hm.unique hn]
  cases hp : s.table? p with
  | none =>
    have hnil := Sources.bodiesIn_of_none hp
    exact Sources.bodiesIn_eq hcomp (h m n p q hm hn hne hcomp (hnil m))
  | some t =>
    cases hq : s.table? q with
    | none =>
      -- The second concern then brings nothing, so the first one may come after it.
      have hnil := Sources.bodiesIn_of_none hq
      have hpm := (h n m q p hn hm (Ne.symm hne) hcomp.symm (hnil n)).1 (hnil m)
      exact Sources.bodiesIn_eq hcomp (h m n p q hm hn hne hcomp hpm)
    | some u => rw [Sources.bodiesIn, Sources.bodiesIn, hp, hq, Sources.table?_eq hcomp hp hq]

/-! ## A slash behind a file -/

/-- A keyword, which is no part of the node it stands in. -/
def keyword (kind : String) (start stop : Nat) : Tree :=
  .node ⟨kind, false, false, false, false, none, start, stop⟩ []

def concernFile : File where
  source := .ofString "module Included\nincluded do\nx\nend\nend\n"
  tree := Tree.clean "program" none 0 38 [
    .clean "module" none 0 37 [
      keyword "module" 0 6,
      .clean "constant" (some "name") 7 15 [],
      .clean "body_statement" (some "body") 16 33 [
        .clean "call" none 16 33 [
          .clean "identifier" (some "method") 16 24 [],
          .clean "do_block" (some "block") 25 33 [
            keyword "do" 25 27,
            .clean "body_statement" (some "body") 28 29 [.clean "identifier" none 28 29 []],
            keyword "end" 30 33]]],
      keyword "end" 34 37]]

/-- Two concerns with one source, written with a slash behind it for the first one. -/
def slashed : Sources where
  registry := .ofList [⟨"Broken", .moduleBody, some ⟨"/included.rb/"⟩, true⟩,
    ⟨"Included", .moduleBody, some ⟨"/included.rb"⟩, true⟩]
  disk := ⟨⟨""⟩, [(["included.rb"], .file concernFile)]⟩
  limit := 100

theorem concernAt_broken : slashed.ConcernAt "Broken" ⟨"/included.rb/"⟩ := ⟨_, rfl, rfl, rfl⟩

theorem concernAt_included : slashed.ConcernAt "Included" ⟨"/included.rb"⟩ := ⟨_, rfl, rfl, rfl⟩

theorem components_slashed :
    (⟨"/included.rb/"⟩ : Path).components = (⟨"/included.rb"⟩ : Path).components := by decide

theorem bodiesIn_broken (name : String) : slashed.bodiesIn ⟨"/included.rb/"⟩ name = [] := by
  have hpieces : slashed.disk.piecesBelow? ⟨"/included.rb/"⟩ = some ["included.rb", ""] := rfl
  have hlocate : slashed.disk.locate ⟨"/included.rb/"⟩ = .error .notDirectory := by
    rw [Disk.locate, hpieces]
    exact (Disk.follow_name rfl (by decide) (by decide) rfl (fun _ h => by cases h) _).trans
      (Disk.follow_file rfl _)
  have hopen : slashed.disk.open? ⟨"/included.rb/"⟩ = .error .notDirectory := by
    rw [Disk.open?, hlocate]
    rfl
  simp only [Sources.bodiesIn, Sources.table?, Disk.readSurvey, Disk.readProgram, Disk.openWithin,
    hopen]
  rfl

theorem names_included :
    (slashed.bodiesIn ⟨"/included.rb"⟩ "Included").map (·.name) = ["x"] := by
  have hopen : slashed.disk.open? ⟨"/included.rb"⟩ = .ok (.file concernFile) :=
    Disk.open?_eq_file [] rfl (by simp) (by decide) (by decide) rfl
  simp only [Sources.bodiesIn, Sources.table?, Disk.readSurvey, Disk.readProgram, Disk.openWithin,
    hopen]
  decide +kernel

theorem isInclude_of_mem_included {d : Declaration}
    (h : d ∈ slashed.bodiesIn ⟨"/included.rb"⟩ "Included") : isInclude d = false := by
  have hname : d.name ∈ ["x"] := names_included ▸ List.mem_map_of_mem h
  simp [isInclude, List.mem_singleton.1 hname]

theorem names_expandBucket_included :
    (expandBucket slashed "" .fresh [rootedInclude ["Included"]]).bucket.map (·.name) = ["x"] := by
  have hbodies := bodies_rootedInclude_fresh "" concernAt_included List.not_mem_nil
  rw [bucket_expandBucket_include "" _ rfl, hbodies, names_included]
  intro d hd
  rw [hbodies] at hd
  exact isInclude_of_mem_included hd

theorem bucket_expandBucket_pair :
    (expandBucket slashed "" .fresh [rootedInclude ["Broken", "Included"]]).bucket = [] := by
  have hbodies := bodies_rootedInclude_pair "" concernAt_broken concernAt_included (by decide)
    components_slashed
  rw [bodiesIn_broken, bodiesIn_broken, List.append_nil] at hbodies
  rw [bucket_expandBucket_include "" _ rfl (by rw [hbodies]; simp), hbodies]

end ModelSurvey.Expansion
