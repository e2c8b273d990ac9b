import ModelSurvey.Proofs.Expansion.SharedSource

/-! Arguments of includes that lead to no body: they name nothing, or a module with none to give.
Such a module is visited all the same, so runs with and without it differ in what they have visited.
They agree on the modules that do have bodies, and then an include brings the same in both. -/
namespace ModelSurvey.Expansion
set_option autoImplicit false
open Syntax

/-! ## Dead arguments -/

/-- The source of an entry is unknown, or it is no file that can be read. -/
def Sources.Unusable (s : Sources) (e : Registry.Entry) : Prop :=
  ∀ p, e.source = some p → ∀ program, ¬s.disk.Reads s.limit p program

variable (s : Sources) (space : String)

/-- An argument of an include in a namespace from which no body can come. -/
inductive Dead (argument : Node) : Prop where
  | valueless (h : ∀ name, argument.evaluate ≠ some (.string name)) : Dead argument
  | unknown {name : String} (h : argument.evaluate = some (.string name))
      (hnone : s.registry.resolve name (Name.segments space) = none) : Dead argument
  | inert {ref : Registry.Reference} (h : moduleOf? s.registry space argument = some ref)
      (hinert : ref.entry.isConcern = false) : Dead argument
  | unusable {ref : Registry.Reference} (h : moduleOf? s.registry space argument = some ref)
      (hunusable : s.Unusable ref.entry) : Dead argument
  | bodiless {ref : Registry.Reference} {p : Path} {program : Program}
      (h : moduleOf? s.registry space argument = some ref) (hp : ref.entry.source = some p)
      (hreads : s.disk.Reads s.limit p program)
      (hnil : ∀ d ∈ (Survey.ofStatements program.statements).table.named ref.name "included",
        ∀ block, d.block = some block → block.calls = []) : Dead argument

/-- The arguments are those of the first list without some dead ones. -/
inductive Spared : List Node → List Node → Prop where
  | nil : Spared [] []
  | keep {n : Node} {l r : List Node} (h : Spared l r) : Spared (n :: l) (n :: r)
  | drop {n : Node} {l r : List Node} (hn : Dead s space n) (h : Spared l r) : Spared (n :: l) r

/-- The second bucket is the first one without some dead arguments of its includes, and without some
of the includes that have no argument left. -/
inductive Pruned : List Declaration → List Declaration → Prop where
  | nil : Pruned [] []
  | keep {d : Declaration} {l r : List Declaration} (h : Pruned l r) : Pruned (d :: l) (d :: r)
  | thin {i : Declaration} {arguments : List Node} {l r : List Declaration}
      (hi : isInclude i = true) (hspared : Spared s space i.arguments arguments)
      (h : Pruned l r) : Pruned (i :: l) ({ i with arguments := arguments } :: r)
  | drop {i : Declaration} {l r : List Declaration} (hi : isInclude i = true)
      (hspared : Spared s space i.arguments []) (h : Pruned l r) : Pruned (i :: l) r

variable {s space}

theorem includedBodies_eq_nil_iff {t : Table} {name : String} : includedBodies t name = [] ↔
    ∀ d ∈ t.named name "included", ∀ block, d.block = some block → block.calls = [] := by
  rw [includedBodies, List.flatMap_eq_nil_iff]
  refine forall₂_congr fun d _ => ?_
  cases d.block <;> simp

theorem Sources.table?_eq_some_iff {p : Path} {t : Table} : s.table? p = some t ↔
    ∃ program, s.disk.Reads s.limit p program ∧
      (Survey.ofStatements program.statements).table = t := by
  simp only [table?, Option.map_eq_some_iff, toOption_eq_some_iff, Disk.readSurvey_eq_ok_iff]
  constructor
  · rintro ⟨_, ⟨program, hreads, rfl⟩, ht⟩
    exact ⟨program, hreads, ht⟩
  · rintro ⟨program, hreads, ht⟩
    exact ⟨_, ⟨program, hreads, rfl⟩, ht⟩

theorem Sources.bodiesIn_eq_nil_iff {p : Path} {name : String} : s.bodiesIn p name = [] ↔
    ∀ program, s.disk.Reads s.limit p program →
      includedBodies (Survey.ofStatements program.statements).table name = [] := by
  rw [bodiesIn]
  constructor
  · intro h program hreads
    rw [table?_eq_some_iff.2 ⟨program, hreads, rfl⟩] at h
    exact h
  · intro h
    cases ht : s.table? p with
    | none => rfl
    | some t =>
      obtain ⟨program, hreads, rfl⟩ := table?_eq_some_iff.1 ht
      exact h program hreads

theorem Sources.bodies_eq_nil_iff {name : String} {e : Registry.Entry}
    (h : s.registry.get? name = some e) : s.bodies name = [] ↔
      e.isConcern = true → ∀ p, e.source = some p → s.bodiesIn p name = [] := by
  rw [bodies, h, Option.map_some, Option.getD_some, entryBodies]
  cases e.isConcern <;> cases e.source <;> simp [bodiesIn]

theorem moduleOf?_eq_none_iff {r : Registry} {argument : Node} :
    moduleOf? r space argument = none ↔ ∀ name, argument.evaluate = some (.string name) →
      r.resolve name (Name.segments space) = none := by
  unfold moduleOf?
  split
  · rename_i name hname
    simp [hname]
  · rename_i hname
    exact iff_of_true rfl fun name h => (hname name h).elim

theorem Dead.bodies_eq_nil {argument : Node} (h : Dead s space argument) {ref : Registry.Reference}
    (href : moduleOf? s.registry space argument = some ref) : s.bodies ref.name = [] := by
  rw [Sources.bodies_eq_nil_iff (get?_of_moduleOf? href)]
  intro hc p hp
  rw [Sources.bodiesIn_eq_nil_iff]
  intro program hreads
  cases h with
  | valueless h =>
    have hnone : moduleOf? s.registry space argument = none :=
      moduleOf?_eq_none_iff.2 fun name hname => absurd hname (h name)
    rw [hnone] at href
    cases href
  | unknown h hnone =>
    have hnone : moduleOf? s.registry space argument = none := by
      refine moduleOf?_eq_none_iff.2 fun name hname => ?_
      rw [h, Option.some.injEq, Value.string.injEq] at hname
      exact hname ▸ hnone
    rw [hnone] at href
    cases href
  | inert h hinert =>
    rw [h, Option.some.injEq] at href
    rw [← href, hinert] at hc
    cases hc
  | unusable h hunusable =>
    rw [h, Option.some.injEq] at href
    subst href
    exact absurd hreads (hunusable p hp program)
  | bodiless h hq hreads' hnil =>
    rw [h, Option.some.injEq] at href
    subst href
    rw [hq, Option.some.injEq] at hp
    subst hp
    rw [hreads.unique hreads']
    exact includedBodies_eq_nil_iff.2 hnil

/-- An argument is dead if and only if the module it names, if any, has no bodies. -/
theorem dead_iff {argument : Node} : Dead s space argument ↔
    ∀ ref, moduleOf? s.registry space argument = some ref → s.bodies ref.name = [] := by
  refine ⟨fun h ref href => h.bodies_eq_nil href, fun h => ?_⟩
  cases href : moduleOf? s.registry space argument with
  | none =>
    by_cases hvalue : ∃ name, argument.evaluate = some (.string name)
    · obtain ⟨name, hname⟩ := hvalue
      exact .unknown hname (moduleOf?_eq_none_iff.1 href name hname)
    · exact .valueless (not_exists.1 hvalue)
  | some ref =>
    have hnil := (Sources.bodies_eq_nil_iff (get?_of_moduleOf? href)).1 (h ref href)
    cases hc : ref.entry.isConcern with
    | false => exact .inert href hc
    | true =>
      by_cases hunusable : s.Unusable ref.entry
      · exact .unusable href hunusable
      · simp only [Sources.Unusable, not_forall, not_not] at hunusable
        obtain ⟨p, hp, program, hreads⟩ := hunusable
        have hbodies := Sources.bodiesIn_eq_nil_iff.1 (hnil hc p hp) program hreads
        exact .bodiless href hp hreads (includedBodies_eq_nil_iff.1 hbodies)

/-! ## Modules with bodies -/

theorem firsts_congr {visited visited' names : List String}
    (h : ∀ m ∈ names, m ∈ visited ↔ m ∈ visited') :
    firsts visited names = firsts visited' names := by
  induction names generalizing visited visited' with
  | nil => rfl
  | cons m r ih =>
    have hr : ∀ k ∈ r, k ∈ visited ↔ k ∈ visited' := fun k hk => h k (List.mem_cons_of_mem m hk)
    have hcons : firsts (m :: visited) r = firsts (m :: visited') r := by
      refine ih fun k hk => ?_
      rw [List.mem_cons, List.mem_cons, hr k hk]
    rw [firsts, firsts, ih hr, hcons]
    simp only [h m (List.mem_cons_self ..)]

theorem filter_firsts (p : String → Bool) (visited names : List String) :
    (firsts visited names).filter p = firsts visited (names.filter p) := by
  induction names generalizing visited with
  | nil => rfl
  | cons m r ih =>
    rw [firsts]
    cases hm : p m with
    | true =>
      rw [List.filter_cons_of_pos hm, firsts]
      split
      · exact ih visited
      · rw [List.filter_cons_of_pos hm, ih]
    | false =>
      have hdrop : ¬p m = true := by simp [hm]
      rw [List.filter_cons_of_neg hdrop]
      split
      · exact ih visited
      · rw [List.filter_cons_of_neg hdrop, ih]
        -- What `m` adds to the visited names does not matter where it is filtered out.
        refine firsts_congr fun k hk => ?_
        have hne : k ≠ m := by
          rintro rfl
          exact hdrop (List.mem_filter.1 hk).2
        simp [hne]

/-- Whether a module has bodies to give. -/
def Sources.gives (s : Sources) (name : String) : Bool := !(s.bodies name).isEmpty

theorem Sources.gives_eq_false_iff {name : String} : s.gives name = false ↔ s.bodies name = [] := by
  simp [gives]

theorem flatMap_bodies_filter (names : List String) :
    (names.filter s.gives).flatMap s.bodies = names.flatMap s.bodies := by
  induction names with
  | nil => rfl
  | cons m r ih =>
    cases hm : s.gives m with
    | true => rw [List.filter_cons_of_pos hm, List.flatMap_cons, List.flatMap_cons, ih]
    | false =>
      rw [List.filter_cons_of_neg (by simp [hm]), List.flatMap_cons,
        Sources.gives_eq_false_iff.1 hm, List.nil_append, ih]

theorem Spared.filter_namedModules {l r : List Node} (h : Spared s space l r) :
    (namedModules s.registry space l).filter s.gives =
      (namedModules s.registry space r).filter s.gives := by
  induction h with
  | nil => rfl
  | @keep n l r _ ih =>
    simp only [namedModules, List.filterMap_cons] at ih ⊢
    cases moduleOf? s.registry space n with
    | none => exact ih
    | some ref => simp only [Option.map_some, List.filter_cons, ih]
  | @drop n l r hn _ ih =>
    simp only [namedModules, List.filterMap_cons] at ih ⊢
    cases href : moduleOf? s.registry space n with
    | none => exact ih
    | some ref =>
      have hdead := Sources.gives_eq_false_iff.2 (hn.bodies_eq_nil href)
      simp only [Option.map_some]
      rw [List.filter_cons_of_neg (by simp [hdead]), ih]

/-! ## Two runs -/

/-- The same arguments name the same modules, and these have the same bodies. -/
structure Sources.Agrees (s s' : Sources) : Prop where
  modules : ∀ space arguments,
    namedModules s.registry space arguments = namedModules s'.registry space arguments
  bodies : s.bodies = s'.bodies

theorem Sources.Agrees.refl (s : Sources) : s.Agrees s := ⟨fun _ _ => rfl, rfl⟩

variable {s' : Sources}

/-- The same modules with bodies have been visited. -/
def AlikeVisited (s : Sources) (visited visited' : List String) : Prop :=
  ∀ m, s.gives m = true → (m ∈ visited ↔ m ∈ visited')

theorem AlikeVisited.bodies_newModules (h : s.Agrees s') {visited visited' : List String}
    (hv : AlikeVisited s visited visited') (i i' : Declaration)
    (hspared : Spared s space i.arguments i'.arguments) :
    (newModules s space visited i).flatMap s.bodies =
      (newModules s' space visited' i').flatMap s'.bodies := by
  have hgives : s.gives = s'.gives := by
    funext m
    simp only [Sources.gives, h.bodies]
  have hnew : (newModules s space visited i).filter s.gives =
      (newModules s' space visited' i').filter s'.gives := by
    rw [newModules, newModules, filter_firsts, filter_firsts, ← hgives, ← h.modules,
      hspared.filter_namedModules]
    exact firsts_congr fun m hm => hv m (List.mem_filter.1 hm).2
  rw [← flatMap_bodies_filter, hnew, h.bodies, flatMap_bodies_filter]

theorem AlikeVisited.newModules_append (h : s.Agrees s') {visited visited' : List String}
    (hv : AlikeVisited s visited visited') (i i' : Declaration)
    (hspared : Spared s space i.arguments i'.arguments) :
    AlikeVisited s ((newModules s space visited i).reverse ++ visited)
      ((newModules s' space visited' i').reverse ++ visited') := by
  intro m hm
  have hnamed : m ∈ namedModules s.registry space i.arguments ↔
      m ∈ namedModules s'.registry space i'.arguments := by
    have hmem := congrArg (m ∈ ·) hspared.filter_namedModules
    simpa [hm, ← h.modules] using hmem
  rw [mem_newModules_append, mem_newModules_append, hv m hm, hnamed]

theorem Spared.refl (arguments : List Node) : Spared s space arguments arguments := by
  induction arguments with
  | nil => exact .nil
  | cons n r ih => exact .keep ih

theorem Pruned.append_left {l r : List Declaration} (h : Pruned s space l r)
    (front : List Declaration) : Pruned s space (front ++ l) (front ++ r) := by
  induction front with
  | nil => exact h
  | cons d front ih => exact .keep ih

theorem Pruned.refl (bucket : List Declaration) : Pruned s space bucket bucket := by
  rw [← List.append_nil bucket]
  exact Pruned.nil.append_left bucket

theorem Pruned.cases_include {i : Declaration} {l r : List Declaration} (hi : isInclude i = true)
    (h : Pruned s space (i :: l) r) :
    (∃ i' r', r = i' :: r' ∧ isInclude i' = true ∧ Spared s space i.arguments i'.arguments ∧
      Pruned s space l r') ∨
    Spared s space i.arguments [] ∧ Pruned s space l r := by
  cases h with
  | @keep _ _ r' h => exact Or.inl ⟨i, r', rfl, hi, Spared.refl _, h⟩
  | @thin _ arguments _ r' _ hspared h => exact Or.inl ⟨_, r', rfl, hi, hspared, h⟩
  | drop _ hspared h => exact Or.inr ⟨hspared, h⟩

theorem Pruned.cases_not {d : Declaration} {l r : List Declaration} (hd : ¬isInclude d = true)
    (h : Pruned s space (d :: l) r) : ∃ r', r = d :: r' ∧ Pruned s space l r' := by
  cases h with
  | @keep _ _ r' h => exact ⟨r', rfl, h⟩
  | thin hi => exact absurd hi hd
  | drop hi => exact absurd hi hd

/-- Runs over a bucket and over what is left of it without dead arguments end in the same, where
spellings make no difference and the same modules with bodies have been visited. -/
theorem expandFrom_pruned (ha : s.ReadsAlike) (ha' : s'.ReadsAlike) (h : s.Agrees s')
    {memory : Memory s.registry} {memory' : Memory s'.registry} (hf : Faithful s memory)
    (hf' : Faithful s' memory') {visited visited' : List String}
    (hv : AlikeVisited s visited visited') {bucket pruned : List Declaration}
    (hp : Pruned s space bucket pruned) :
    let o := expandFrom s space memory visited bucket
    let o' := expandFrom s' space memory' visited' pruned
    o.bucket = o'.bucket ∧ o.stats.spliced = o'.stats.spliced := by
  -- Along the pass over the whole bucket, which takes a step for each include of the other run.
  rw [expandFrom_eq_pass s space memory visited bucket]
  fun_induction pass s space memory visited bucket generalizing memory' visited' pruned with
  | case1 memory visited =>
    cases hp
    rw [expandFrom_of_none s' space memory' visited' rfl]
    exact ⟨rfl, rfl⟩
  | case2 memory visited i r hi g rest =>
    rename_i ih
    have hbodies : g.bodies = (newModules s space visited i).flatMap s.bodies :=
      hf.bodies_takeArguments ha space visited i
    have hvisited : g.visited = (newModules s space visited i).reverse ++ visited :=
      visited_takeArguments s space memory visited i
    have hg : Faithful s g.memory := hf.takeArguments space visited i
    rcases hp.cases_include hi with ⟨i', r', rfl, hi', hspared, hrest⟩ | ⟨hspared, hrest⟩
    · have hsame : (takeArguments s' space memory' visited' i'.arguments).bodies = g.bodies := by
        rw [hf'.bodies_takeArguments ha', hbodies, hv.bodies_newModules h i i' hspared]
      have hstep : AlikeVisited s g.visited
          (takeArguments s' space memory' visited' i'.arguments).visited := by
        rw [hvisited, visited_takeArguments]
        exact hv.newModules_append h i i' hspared
      obtain ⟨hbucket, hspliced⟩ :=
        ih hg (hf'.takeArguments space visited' i') hstep (hrest.append_left g.bodies)
      rw [expandFrom_cons_of_include s' space memory' visited' r' hi']
      dsimp only
      rw [hsame]
      exact ⟨hbucket, congrArg (g.bodies.length + ·) hspliced⟩
    · -- All of the include is dead, and the other run goes on as if it had taken no argument.
      have hnil : g.bodies = [] := by
        rw [hbodies, hv.bodies_newModules h i { i with arguments := [] } hspared]
        rfl
      have hstep : AlikeVisited s g.visited visited' := by
        rw [hvisited]
        exact hv.newModules_append h i { i with arguments := [] } hspared
      obtain ⟨hbucket, hspliced⟩ := ih hg hf' hstep (by rw [hnil]; exact hrest)
      refine ⟨hbucket, ?_⟩
      simp only [Stats.add, hnil, List.length_nil, Nat.zero_add]
      exact hspliced
  | case3 memory visited d r hd rest =>
    rename_i ih
    obtain ⟨r', rfl, hrest⟩ := hp.cases_not hd
    rw [expandFrom_cons_of_not s' space _ _ r' (by simpa using hd)]
    obtain ⟨hbucket, hspliced⟩ := ih hf hf' hv hrest
    exact ⟨congrArg (d :: ·) hbucket, hspliced⟩

/-- Runs over a bucket and over the pruned one agree from the start on. -/
theorem expandBucket_pruned (ha : s.ReadsAlike) {memory memory' : Memory s.registry}
    (hf : Faithful s memory) (hf' : Faithful s memory') {bucket pruned : List Declaration}
    (hp : Pruned s space bucket pruned) :
    let o := expandBucket s space memory bucket
    let o' := expandBucket s space memory' pruned
    o.bucket = o'.bucket ∧ o.stats.spliced = o'.stats.spliced :=
  expandFrom_pruned ha ha (Sources.Agrees.refl s) hf hf' (fun _ _ => Iff.rfl) hp

/-! ## Another entry for an unusable source -/

theorem map_name_find?_define {r : Registry} {e e' : Registry.Entry}
    (he : r.get? (Name.unroot e'.name) = some e) (name : String) :
    ((r.define e').find? name).map (·.name) = (r.find? name).map (·.name) := by
  rw [Registry.find?, Registry.find?, Option.map_map, Option.map_map]
  by_cases hname : name = Name.unroot e'.name
  · rw [hname, Registry.get?_define_self, he]
    rfl
  · rw [Registry.get?_define_of_ne r e' hname]

theorem map_name_moduleOf?_define {r : Registry} {e e' : Registry.Entry}
    (he : r.get? (Name.unroot e'.name) = some e) (space : String) (argument : Node) :
    (moduleOf? (r.define e') space argument).map (·.name) =
      (moduleOf? r space argument).map (·.name) := by
  unfold moduleOf?
  split
  · simp only [Registry.resolve, List.map_findSome?, Function.comp_def, map_name_find?_define he]
  · rfl

/-- The sources with another entry for a name. -/
def Sources.redefine (s : Sources) (e' : Registry.Entry) : Sources :=
  { s with registry := s.registry.define e' }

theorem agrees_redefine {e e' : Registry.Entry}
    (he : s.registry.get? (Name.unroot e'.name) = some e) (hunusable : s.Unusable e)
    (he' : e'.isConcern = false) : s.Agrees (s.redefine e') := by
  refine ⟨fun space arguments => ?_, ?_⟩
  · refine List.filterMap_congr fun n _ => ?_
    exact (map_name_moduleOf?_define he space n).symm
  · funext name
    by_cases hname : name = Name.unroot e'.name
    · subst hname
      have hold : s.bodies (Name.unroot e'.name) = [] := by
        rw [Sources.bodies_eq_nil_iff he]
        intro _ p hp
        rw [Sources.bodiesIn_eq_nil_iff]
        intro program hreads
        exact absurd hreads (hunusable p hp program)
      have hnew : (s.redefine e').bodies (Name.unroot e'.name) = [] := by
        rw [Sources.bodies_eq_nil_iff (Registry.get?_define_self s.registry e')]
        intro hc
        cases hc.symm.trans he'
      rw [hold, hnew]
    · have hget : (s.redefine e').registry.get? name = s.registry.get? name :=
        Registry.get?_define_of_ne s.registry e' hname
      rw [Sources.bodies, Sources.bodies, hget]
      rfl

theorem concernAt_of_redefine {e' : Registry.Entry} (he' : e'.isConcern = false) {name : String}
    {p : Path} (h : (s.redefine e').ConcernAt name p) : s.ConcernAt name p := by
  obtain ⟨e, he, hc, hp⟩ := h
  by_cases hname : name = Name.unroot e'.name
  · subst hname
    have hself := (Registry.get?_define_self s.registry e').symm.trans he
    rw [Option.some.injEq] at hself
    rw [← hself] at hc
    cases hc.symm.trans he'
  · exact ⟨e, (Registry.get?_define_of_ne s.registry e' hname).symm.trans he, hc, hp⟩

theorem readsAlike_redefine (ha : s.ReadsAlike) {e' : Registry.Entry}
    (he' : e'.isConcern = false) : (s.redefine e').ReadsAlike :=
  fun m n p q hm hn hcomp =>
    ha m n p q (concernAt_of_redefine he' hm) (concernAt_of_redefine he' hn) hcomp

/-- Where the source of a module is of no use, runs do not depend on what else is known of it. -/
theorem expandBucket_redefine (ha : s.ReadsAlike) {e e' : Registry.Entry}
    (he : s.registry.get? (Name.unroot e'.name) = some e) (hunusable : s.Unusable e)
    (he' : e'.isConcern = false) {memory : Memory s.registry}
    {memory' : Memory (s.redefine e').registry} (hf : Faithful s memory)
    (hf' : Faithful (s.redefine e') memory') (space : String) (bucket : List Declaration) :
    let o := expandBucket s space memory bucket
    let o' := expandBucket (s.redefine e') space memory' bucket
    o.bucket = o'.bucket ∧ o.stats = o'.stats := by
  have hp : Pruned s space bucket bucket := Pruned.refl bucket
  obtain ⟨hbucket, hspliced⟩ := expandFrom_pruned ha (readsAlike_redefine ha he')
    (agrees_redefine he hunusable he') hf hf' (fun _ _ => Iff.rfl) hp
  have hlength := length_expandFrom s space memory [] bucket
  have hlength' := length_expandFrom (s.redefine e') space memory' [] bucket
  rw [← hbucket, ← hspliced] at hlength'
  have hincludes : (expandFrom s space memory [] bucket).stats.includes =
      (expandFrom (s.redefine e') space memory' [] bucket).stats.includes := by omega
  exact ⟨hbucket, congrArg₂ Stats.mk hincludes hspliced⟩

/-! ## Where spellings make a difference -/

theorem dead_rooted {m : String} {p : Path} (hm : s.ConcernAt m p) (h : s.bodiesIn p m = []) :
    Dead s space (.constantPath none m) := by
  refine dead_iff.2 fun ref href => ?_
  rw [moduleOf?_rooted] at href
  obtain ⟨e, -, rfl⟩ := Option.map_eq_some_iff.1 href
  rw [Sources.bodies_of_concernAt hm, h]

/-- Runs over a bucket and over what is left of it without dead arguments splice equally much. -/
def SplicesAlike (s : Sources) (space : String) : Prop :=
  ∀ bucket pruned, Pruned s space bucket pruned →
    (expandBucket s space .fresh bucket).stats.spliced =
      (expandBucket s space .fresh pruned).stats.spliced

theorem SplicesAlike.bodiesIn_eq_nil (h : SplicesAlike s space) {m n : String} {p q : Path}
    (hm : s.ConcernAt m p) (hn : s.ConcernAt n q) (hne : n ≠ m)
    (hcomp : p.components = q.components) (hpm : s.bodiesIn p m = []) (hpn : s.bodiesIn p n = []) :
    s.bodiesIn q n = [] := by
  have hspared : Spared s space (rootedInclude [m, n]).arguments (rootedInclude [n]).arguments :=
    .drop (dead_rooted hm hpm) (Spared.refl _)
  have hspliced := h [rootedInclude [m, n]] [rootedInclude [n]] (.thin rfl hspared .nil)
  have hzero : (expandBucket s space .fresh [rootedInclude [m, n]]).stats.spliced = 0 := by
    rw [spliced_expandBucket_eq_zero_iff space .fresh rfl,
      bodies_rootedInclude_pair space hm hn hne hcomp, hpm, hpn, List.append_nil]
  rw [hzero, eq_comm, spliced_expandBucket_eq_zero_iff space .fresh rfl,
    bodies_rootedInclude_fresh space hn List.not_mem_nil] at hspliced
  exact hspliced

theorem SplicesAlike.bodiesIn_eq_nil_of_dead (h : SplicesAlike s space) {m n : String} {p q : Path}
    (hm : s.ConcernAt m p) (hn : s.ConcernAt n q) (hne : n ≠ m)
    (hcomp : p.components = q.components) (hpm : s.bodiesIn p m = []) (hqn : s.bodiesIn q n = []) :
    s.bodiesIn p n = [] := by
  have hspared : Spared s space (rootedInclude [m, n]).arguments [] :=
    .drop (dead_rooted hm hpm) (.drop (dead_rooted hn hqn) .nil)
  have hspliced := h [rootedInclude [m, n]] [] (.drop rfl hspared .nil)
  have hzero : (expandBucket s space .fresh []).stats.spliced = 0 := by
    rw [expandBucket, expandFrom_of_none s space .fresh [] rfl]
  rw [hzero, spliced_expandBucket_eq_zero_iff space .fresh rfl,
    bodies_rootedInclude_pair space hm hn hne hcomp, List.append_eq_nil_iff] at hspliced
  exact hspliced.2

theorem SplicesAlike.readsAlike (h : SplicesAlike s space) : s.ReadsAlike :=
  readsAlike_of_silent fun _ _ _ _ hm hn hne hcomp hpm =>
    ⟨h.bodiesIn_eq_nil hm hn hne hcomp hpm, h.bodiesIn_eq_nil_of_dead hm hn hne hcomp hpm⟩

/-- Dead arguments can be taken out of every bucket without a change exactly if spellings make no
difference. Then this holds after any history, and an entry whose source is of no use might as well
be any entry that is no concern. -/
theorem dead_arguments_vanish_iff_readsAlike (s : Sources) :
    ((∀ space bucket pruned, Pruned s space bucket pruned →
        let o := expandBucket s space .fresh bucket
        let o' := expandBucket s space .fresh pruned
        o.bucket = o'.bucket ∧ o.stats.spliced = o'.stats.spliced) ↔ s.ReadsAlike) ∧
    (s.ReadsAlike → ∀ memory memory', Reachable s memory → Reachable s memory' →
      ∀ space bucket pruned, Pruned s space bucket pruned →
        let o := expandBucket s space memory bucket
        let o' := expandBucket s space memory' pruned
        o.bucket = o'.bucket ∧ o.stats.spliced = o'.stats.spliced) ∧
    (s.ReadsAlike → ∀ e e', s.registry.get? (Name.unroot e'.name) = some e → s.Unusable e →
      e'.isConcern = false → ∀ memory memory', Reachable s memory →
        Reachable (s.redefine e') memory' → ∀ space bucket,
          let o := expandBucket s space memory bucket
          let o' := expandBucket (s.redefine e') space memory' bucket
          o.bucket = o'.bucket ∧ o.stats = o'.stats) := by
  refine ⟨⟨fun h => ?_, fun ha => ?_⟩, fun ha => ?_, fun ha => ?_⟩
  · have hsplices : SplicesAlike s "" := fun bucket pruned hp => (h "" bucket pruned hp).2
    exact hsplices.readsAlike
  · intro space bucket pruned hp
    exact expandBucket_pruned ha (faithful_fresh s) (faithful_fresh s) hp
  · intro memory memory' hm hm' space bucket pruned hp
    exact expandBucket_pruned ha hm.faithful hm'.faithful hp
  · intro e e' he hunusable he' memory memory' hm hm' space bucket
    exact expandBucket_redefine ha he hunusable he' hm.faithful hm'.faithful space bucket

/-- The first concern of the pair is dead, but only without it the second one brings its body. -/
theorem slashed_dead_argument_shows :
    let pair := rootedInclude ["Broken", "Included"]
    let rest := rootedInclude ["Included"]
    Pruned slashed "" [pair] [rest] ∧ (expandBucket slashed "" .fresh [pair]).bucket = [] ∧
      (expandBucket slashed "" .fresh [rest]).bucket.map (·.name) = ["x"] := by
  intro pair rest
  have hspared : Spared slashed "" pair.arguments rest.arguments :=
    .drop (dead_rooted concernAt_broken (bodiesIn_broken "Broken")) (Spared.refl _)
  exact ⟨.thin rfl hspared .nil, bucket_expandBucket_pair, names_expandBucket_included⟩

end ModelSurvey.Expansion
