import ModelSurvey.Expansion.Mixin

/-! What a memory holds. A memory only ever grows, and it never forgets a table or a mixin. It is
faithful when each table was read from the source of some concern, and each mixin is what its entry
gives with the tables at hand. Tables are kept by the components of a path, so a source may be known
by a table that was read under another spelling of it. -/
namespace ModelSurvey.Expansion
set_option autoImplicit false

/-! ## Bodies -/

/-- What a module contributes by its entry, where `read` gives the declarations of files. -/
def entryBodies (name : String) (e : Registry.Entry) (read : Path → Option Table) :
    List Declaration :=
  if e.isConcern then ((e.source.bind read).map (includedBodies · name)).getD [] else []

/-- What a module contributes where it is included: the bodies in its source, if it is a concern
whose source is known and can be read. -/
def Sources.bodies (s : Sources) (name : String) : List Declaration :=
  ((s.registry.get? name).map fun e => entryBodies name e s.table?).getD []

theorem entryBodies_congr {name : String} {e : Registry.Entry} {read read' : Path → Option Table}
    (h : ∀ p, e.isConcern = true → e.source = some p → read p = read' p) :
    entryBodies name e read = entryBodies name e read' := by
  unfold entryBodies
  cases hc : e.isConcern with
  | false => rfl
  | true =>
    cases hp : e.source with
    | none => rfl
    | some p => simp only [Option.bind_some, h p hc hp]

namespace Memory

variable {registry : Registry}

/-- The declarations that the memory has for a path. -/
def read (m : Memory registry) (p : Path) : Option Table := (m.tables.lookup p.components).join

/-- The bodies that the memory has for a module. -/
def bodies (m : Memory registry) (name : String) : List Declaration :=
  ((m.mixins.get? name).map Mixin.bodies).getD []

def Holds (m : Memory registry) (name : String) : Prop := ∃ x, m.mixins.get? name = some x

/-! ## Growth -/

/-- The memory `m'` has all tables and mixins that `m` has. -/
structure Extends (m m' : Memory registry) : Prop where
  tables : ∀ c t, m.tables.lookup c = some t → m'.tables.lookup c = some t
  mixins : ∀ name x, m.mixins.get? name = some x → m'.mixins.get? name = some x

theorem Extends.refl (m : Memory registry) : m.Extends m := ⟨fun _ _ h => h, fun _ _ h => h⟩

theorem Extends.trans {a b c : Memory registry} (hab : a.Extends b) (hbc : b.Extends c) :
    a.Extends c := by
  refine ⟨?_, ?_⟩
  · intro k t h
    exact hbc.tables k t (hab.tables k t h)
  · intro name x h
    exact hbc.mixins name x (hab.mixins name x h)

theorem Extends.holds {m m' : Memory registry} (h : m.Extends m') {name : String}
    (hm : m.Holds name) : m'.Holds name := by
  obtain ⟨x, hx⟩ := hm
  exact ⟨x, h.mixins name x hx⟩

theorem Extends.bodies_eq {m m' : Memory registry} (h : m.Extends m') {name : String}
    (hm : m.Holds name) : m'.bodies name = m.bodies name := by
  obtain ⟨x, hx⟩ := hm
  simp only [bodies, hx, h.mixins name x hx]

theorem Extends.read_eq {m m' : Memory registry} (h : m.Extends m') {p : Path} {t : Option Table}
    (ht : m.tables.lookup p.components = some t) : m'.read p = m.read p := by
  simp only [read, ht, h.tables _ t ht]

@[simp] theorem tables_resolve (m : Memory registry) (space name : String) :
    (m.resolve space name).2.tables = m.tables := by
  rw [resolve]
  split <;> rfl

@[simp] theorem mixins_resolve (m : Memory registry) (space name : String) :
    (m.resolve space name).2.mixins = m.mixins := by
  rw [resolve]
  split <;> rfl

end Memory

variable (s : Sources)

/-! ## Tables -/

theorem lookup_recallTable (m : Memory s.registry) (p : Path) :
    (recallTable s m p).2.tables.lookup p.components = some (recallTable s m p).1 := by
  rw [recallTable]
  split
  · assumption
  · simp

@[simp] theorem mixins_recallTable (m : Memory s.registry) (p : Path) :
    (recallTable s m p).2.mixins = m.mixins := by
  rw [recallTable]
  split <;> rfl

theorem lookup_recallTable_cases (m : Memory s.registry) (p : Path) {c : List Path.Component}
    {t : Option Table} (h : (recallTable s m p).2.tables.lookup c = some t) :
    m.tables.lookup c = some t ∨ p.components = c ∧ t = s.table? p := by
  rw [recallTable] at h
  split at h
  · exact Or.inl h
  · by_cases hc : c = p.components
    · subst hc
      rw [List.lookup_cons_self, Option.some.injEq] at h
      exact Or.inr ⟨rfl, h.symm⟩
    · rw [List.lookup_cons, beq_eq_false_iff_ne.2 hc] at h
      exact Or.inl h

theorem extends_recallTable (m : Memory s.registry) (p : Path) :
    m.Extends (recallTable s m p).2 := by
  rw [recallTable]
  split
  · exact Memory.Extends.refl m
  · rename_i hnone
    refine ⟨fun c t h => ?_, fun _ _ h => h⟩
    have hc : c ≠ p.components := by
      intro hc
      rw [hc, hnone] at h
      cases h
    rw [List.lookup_cons, beq_eq_false_iff_ne.2 hc]
    exact h

/-! ## Mixins -/

/-- Loading a mixin reads the source of a concern, and nothing else. -/
theorem loadMixin_cases (m : Memory s.registry) (ref : Registry.Reference) :
    ((ref.entry.isConcern = false ∨ ref.entry.source = none) ∧
      loadMixin s m ref = (⟨ref.name, ref.entry.isConcern, ref.entry.source, []⟩, m)) ∨
    ∃ p, ref.entry.isConcern = true ∧ ref.entry.source = some p ∧
      loadMixin s m ref =
        (⟨ref.name, true, some p, ((recallTable s m p).1.map (includedBodies · ref.name)).getD []⟩,
          (recallTable s m p).2) := by
  unfold loadMixin
  cases hc : ref.entry.isConcern with
  | false => exact Or.inl ⟨Or.inl rfl, rfl⟩
  | true =>
    cases hp : ref.entry.source with
    | none => exact Or.inl ⟨Or.inr rfl, rfl⟩
    | some p =>
      refine Or.inr ⟨p, rfl, rfl, ?_⟩
      cases ht : (recallTable s m p).1 with
      | none => simp [ht]
      | some t => simp [ht]

theorem extends_loadMixin (m : Memory s.registry) (ref : Registry.Reference) :
    m.Extends (loadMixin s m ref).2 := by
  rcases loadMixin_cases s m ref with ⟨-, e⟩ | ⟨p, -, -, e⟩
  · rw [e]
    exact Memory.Extends.refl m
  · rw [e]
    exact extends_recallTable s m p

@[simp] theorem mixins_loadMixin (m : Memory s.registry) (ref : Registry.Reference) :
    (loadMixin s m ref).2.mixins = m.mixins := by
  rcases loadMixin_cases s m ref with ⟨-, e⟩ | ⟨p, -, -, e⟩
  · rw [e]
  · rw [e]
    exact mixins_recallTable s m p

theorem loadMixin_fst (m : Memory s.registry) (ref : Registry.Reference) :
    (loadMixin s m ref).1 = ⟨ref.name, ref.entry.isConcern, ref.entry.source,
      entryBodies ref.name ref.entry (loadMixin s m ref).2.read⟩ := by
  rcases loadMixin_cases s m ref with ⟨hnone, e⟩ | ⟨p, hc, hp, e⟩
  · rw [e, entryBodies]
    rcases hnone with hc | hp
    · simp [hc]
    · simp [hp]
  · rw [e, entryBodies, hc, hp]
    simp only [if_true, Option.bind_some, Memory.read, lookup_recallTable, Option.join_some]

theorem extends_recallMixin (m : Memory s.registry) (ref : Registry.Reference) :
    m.Extends (recallMixin s m ref).2 := by
  rw [recallMixin]
  split
  · exact Memory.Extends.refl m
  · rename_i hnone
    have hload := extends_loadMixin s m ref
    refine ⟨hload.tables, fun name x h => ?_⟩
    have hne : name ≠ ref.name := by
      intro hn
      rw [hn, hnone] at h
      cases h
    rw [NameMap.get?_insert_of_ne _ _ hne]
    exact hload.mixins name x h

theorem get?_recallMixin (m : Memory s.registry) (ref : Registry.Reference) :
    (recallMixin s m ref).2.mixins.get? ref.name = some (recallMixin s m ref).1 := by
  rw [recallMixin]
  split
  · assumption
  · simp

theorem holds_recallMixin (m : Memory s.registry) (ref : Registry.Reference) :
    (recallMixin s m ref).2.Holds ref.name := ⟨_, get?_recallMixin s m ref⟩

theorem bodies_recallMixin (m : Memory s.registry) (ref : Registry.Reference) :
    (recallMixin s m ref).2.bodies ref.name = (recallMixin s m ref).1.bodies := by
  simp only [Memory.bodies, get?_recallMixin, Option.map_some, Option.getD_some]

/-! ## Faithful memories -/

/-- The module `name` is a concern with the source `p`. -/
def Sources.ConcernAt (s : Sources) (name : String) (p : Path) : Prop :=
  ∃ e, s.registry.get? name = some e ∧ e.isConcern = true ∧ e.source = some p

/-- The memory has nothing but what was read from sources of concerns. -/
structure Faithful (m : Memory s.registry) : Prop where
  tables : ∀ c t, m.tables.lookup c = some t →
    ∃ name p, s.ConcernAt name p ∧ p.components = c ∧ t = s.table? p
  mixins : ∀ name x, m.mixins.get? name = some x → ∃ e, s.registry.get? name = some e ∧
    x = ⟨name, e.isConcern, e.source, entryBodies name e m.read⟩ ∧
    ∀ p, e.isConcern = true → e.source = some p → ∃ t, m.tables.lookup p.components = some t

theorem faithful_fresh : Faithful s .fresh := by
  refine ⟨?_, ?_⟩
  · intro c t h
    cases h
  · intro name x h
    cases h

variable {s}

theorem Faithful.of_eq {m m' : Memory s.registry} (h : Faithful s m)
    (ht : m'.tables = m.tables) (hx : m'.mixins = m.mixins) : Faithful s m' := by
  have hread : m'.read = m.read := by
    funext p
    rw [Memory.read, ht, Memory.read]
  refine ⟨?_, ?_⟩
  · rw [ht]
    exact h.tables
  · rw [hx, hread, ht]
    exact h.mixins

theorem Faithful.loadMixin {m : Memory s.registry} (h : Faithful s m) {ref : Registry.Reference}
    (href : s.registry.get? ref.name = some ref.entry) : Faithful s (loadMixin s m ref).2 := by
  have hext := extends_loadMixin s m ref
  refine ⟨fun c t hl => ?_, fun name x hx => ?_⟩
  · rcases loadMixin_cases s m ref with ⟨-, e⟩ | ⟨p, hc, hp, e⟩
    · rw [e] at hl
      exact h.tables c t hl
    · rw [e] at hl
      rcases lookup_recallTable_cases s m p hl with hl | ⟨hcomp, ht⟩
      · exact h.tables c t hl
      · exact ⟨ref.name, p, ⟨ref.entry, href, hc, hp⟩, hcomp, ht⟩
  · rw [mixins_loadMixin] at hx
    obtain ⟨e, he, hmix, hread⟩ := h.mixins name x hx
    have hbodies : entryBodies name e m.read =
        entryBodies name e (Expansion.loadMixin s m ref).2.read :=
      entryBodies_congr fun p hc hp => by
        obtain ⟨t, ht⟩ := hread p hc hp
        exact (hext.read_eq ht).symm
    refine ⟨e, he, hbodies ▸ hmix, fun p hc hp => ?_⟩
    obtain ⟨t, ht⟩ := hread p hc hp
    exact ⟨t, hext.tables _ t ht⟩

theorem lookup_loadMixin {m : Memory s.registry} {ref : Registry.Reference} {p : Path}
    (hc : ref.entry.isConcern = true) (hp : ref.entry.source = some p) :
    (loadMixin s m ref).2.tables.lookup p.components = some (recallTable s m p).1 := by
  rcases loadMixin_cases s m ref with ⟨hnone, -⟩ | ⟨q, -, hq, e⟩
  · rcases hnone with h | h
    · rw [h] at hc
      cases hc
    · rw [h] at hp
      cases hp
  · rw [hq, Option.some.injEq] at hp
    subst hp
    rw [e]
    exact lookup_recallTable s m q

theorem Faithful.recallMixin {m : Memory s.registry} (h : Faithful s m) (ref : Registry.Reference)
    (href : s.registry.get? ref.name = some ref.entry) : Faithful s (recallMixin s m ref).2 := by
  rw [Expansion.recallMixin]
  split
  · exact h
  · have hload := h.loadMixin href
    refine ⟨hload.tables, fun name x hx => ?_⟩
    by_cases hn : name = ref.name
    · subst hn
      rw [NameMap.get?_insert_self, Option.some.injEq] at hx
      subst hx
      exact ⟨ref.entry, href, loadMixin_fst s m ref, fun p hc hp => ⟨_, lookup_loadMixin hc hp⟩⟩
    · rw [NameMap.get?_insert_of_ne _ _ hn] at hx
      exact hload.mixins name x hx

theorem Faithful.lookup_recallMixin {m : Memory s.registry} (h : Faithful s m)
    (ref : Registry.Reference) (href : s.registry.get? ref.name = some ref.entry) {p : Path}
    (hc : ref.entry.isConcern = true) (hp : ref.entry.source = some p) :
    (Expansion.recallMixin s m ref).2.tables.lookup p.components =
      some (recallTable s m p).1 := by
  rw [Expansion.recallMixin]
  split
  · rename_i x hx
    obtain ⟨e, he, -, hread⟩ := h.mixins ref.name x hx
    rw [href, Option.some.injEq] at he
    subst he
    obtain ⟨t, ht⟩ := hread p hc hp
    rw [recallTable, ht]
  · exact lookup_loadMixin hc hp

/-! ## One path in several spellings -/

theorem Sources.ConcernAt.unique {s : Sources} {name : String} {p q : Path}
    (hp : s.ConcernAt name p) (hq : s.ConcernAt name q) : p = q := by
  obtain ⟨e, he, -, hep⟩ := hp
  obtain ⟨e', he', -, heq⟩ := hq
  rw [he, Option.some.injEq] at he'
  subst he'
  rw [hep, Option.some.injEq] at heq
  exact heq

/-- The bodies that reading `p` gives for a module. -/
def Sources.bodiesIn (s : Sources) (p : Path) (name : String) : List Declaration :=
  ((s.table? p).map (includedBodies · name)).getD []

/-- Sources of concerns that are one path up to its spelling give a concern the same bodies. They
may differ in this because a path with a slash behind it leads to no file. -/
def Sources.ReadsAlike (s : Sources) : Prop :=
  ∀ m n p q, s.ConcernAt m p → s.ConcernAt n q → p.components = q.components →
    s.bodiesIn p n = s.bodiesIn q n

theorem Sources.bodiesIn_of_none {s : Sources} {p : Path} (h : s.table? p = none) (name : String) :
    s.bodiesIn p name = [] := by
  rw [bodiesIn, h]
  rfl

theorem Sources.bodies_of_concernAt {s : Sources} {name : String} {p : Path}
    (h : s.ConcernAt name p) : s.bodies name = s.bodiesIn p name := by
  obtain ⟨e, he, hc, hp⟩ := h
  simp [Sources.bodies, he, entryBodies, hc, hp, Sources.bodiesIn]

theorem Faithful.bodies_of_concernAt {m : Memory s.registry} (h : Faithful s m) {name : String}
    {p : Path} (hp : s.ConcernAt name p) (hm : m.Holds name) :
    m.bodies name = ((m.read p).map (includedBodies · name)).getD [] := by
  obtain ⟨x, hx⟩ := hm
  obtain ⟨e, he, rfl, -⟩ := h.mixins name x hx
  obtain ⟨e', he', hc, hp⟩ := hp
  rw [he, Option.some.injEq] at he'
  subst he'
  simp [Memory.bodies, hx, entryBodies, hc, hp]

/-- Where spellings make no difference, a faithful memory has what the files have. -/
theorem Faithful.bodies_eq {m : Memory s.registry} (h : Faithful s m) (ha : s.ReadsAlike)
    {name : String} (hm : m.Holds name) : m.bodies name = s.bodies name := by
  obtain ⟨x, hx⟩ := hm
  obtain ⟨e, he, rfl, hread⟩ := h.mixins name x hx
  have hentry : entryBodies name e m.read = entryBodies name e s.table? := by
    unfold entryBodies
    cases hc : e.isConcern with
    | false => rfl
    | true =>
      cases hp : e.source with
      | none => rfl
      | some p =>
        obtain ⟨t, ht⟩ := hread p hc hp
        obtain ⟨k, q, hq, hcomp, rfl⟩ := h.tables _ t ht
        have halike : s.bodiesIn q name = s.bodiesIn p name :=
          ha k name q p hq ⟨e, he, hc, hp⟩ hcomp
        simp only [if_true, Option.bind_some, Memory.read, ht, Option.join_some]
        exact halike
  simp only [Memory.bodies, hx, Option.map_some, Option.getD_some, Sources.bodies, he, hentry]

end ModelSurvey.Expansion
