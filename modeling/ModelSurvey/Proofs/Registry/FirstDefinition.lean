import ModelSurvey.Proofs.Declaration.PlainNames
import ModelSurvey.Proofs.Disk.Discovered
import ModelSurvey.Proofs.Disk.PathOrder
import ModelSurvey.Registry.Index

/-! What a registry of files knows of a name. Entries are taken only for new names, so the first
file in path order that defines the name decides, with the first of its definitions. Neither the
order of the list of files matters nor how often a file is in it. -/
namespace ModelSurvey
set_option autoImplicit false

namespace Registry

/-! ## Taking the first entries -/

theorem ext_get? {r s : Registry} (h : ∀ name, r.get? name = s.get? name) : r = s :=
  congrArg Registry.mk (NameMap.ext_get? h)

theorem get?_defineNew (r : Registry) {e : Entry} (he : Name.unroot e.name = e.name)
    (name : String) :
    (r.defineNew e).get? name = (r.get? name).or (if e.name == name then some e else none) := by
  have hcontains : r.contains e.name = (r.get? e.name).isSome := rfl
  rw [defineNew, hcontains]
  by_cases hname : e.name = name
  · subst hname
    cases hknown : r.get? e.name with
    | some known => simp [hknown]
    | none =>
      have hself := get?_define_self r e
      rw [he] at hself
      simp [hself]
  · have hother : (r.define e).get? name = r.get? name :=
      get?_define_of_ne r e (by rw [he]; exact Ne.symm hname)
    split <;> simp [hname, hother]

/-- A name has the first entry for it, after those that were known before. -/
theorem get?_foldl_defineNew {entries : List Entry}
    (h : ∀ e ∈ entries, Name.unroot e.name = e.name) (r : Registry) (name : String) :
    (entries.foldl defineNew r).get? name =
      (r.get? name).or (entries.find? fun e => e.name == name) := by
  induction entries generalizing r with
  | nil => simp
  | cons e entries ih =>
    rw [List.foldl_cons, ih fun e' he' => h e' (List.mem_cons_of_mem e he'),
      get?_defineNew r (h e (List.mem_cons_self ..)), Option.or_assoc, List.find?_cons]
    congr 1
    cases e.name == name <;> rfl

/-! ## Entries of a file -/

/-- A call of `extend` without receiver in the bucket names one of the markers. -/
def Extends (t : Table) (space : String) (markers : List String) : Prop :=
  ∃ call ∈ t.bucket space, call.name = "extend" ∧ call.receiver = none ∧
    ∃ argument ∈ call.arguments, ∃ name, argument.evaluate.bind Value.name? = some name ∧
      Name.unroot name ∈ markers

theorem extendsMarker_iff {t : Table} {space : String} {markers : List String} :
    extendsMarker t space markers = true ↔ Extends t space markers := by
  simp only [extendsMarker, extendedNames, List.any_eq_true, List.contains_iff_mem,
    List.mem_flatMap, List.mem_filter, Table.named, List.mem_map, List.mem_filterMap, beq_iff_eq,
    Option.isNone_iff_eq_none]
  constructor
  · rintro ⟨_, ⟨call, ⟨⟨hcall, hname⟩, hreceiver⟩, name, ⟨argument, hargument, he⟩, rfl⟩, hm⟩
    exact ⟨call, hcall, hname, hreceiver, argument, hargument, name, he, hm⟩
  · rintro ⟨call, hcall, hname, hreceiver, argument, hargument, name, he, hm⟩
    exact ⟨_, ⟨call, ⟨⟨hcall, hname⟩, hreceiver⟩, name, ⟨argument, hargument, he⟩, rfl⟩, hm⟩

/-- The entry says what a definition in a file says, and is a concern if its module extends one of
the markers in that file. -/
structure Describes (markers : List String) (e : Entry) (p : Path) (survey : Survey)
    (found : Definition) : Prop where
  name : e.name = found.name
  kind : e.kind = found.kind
  source : e.source = some p
  concern : e.concern = true ↔
    found.kind = .moduleBody ∧ Extends survey.table found.name markers

theorem describes_iff {markers : List String} {e : Entry} {p : Path} {survey : Survey}
    {found : Definition} : Describes markers e p survey found ↔
      e = ⟨found.name, found.kind, some p,
        found.kind == .moduleBody && extendsMarker survey.table found.name markers⟩ := by
  have hconcern : (found.kind == .moduleBody &&
      extendsMarker survey.table found.name markers) = true ↔
        found.kind = .moduleBody ∧ Extends survey.table found.name markers := by
    rw [Bool.and_eq_true, beq_iff_eq, extendsMarker_iff]
  constructor
  · rintro ⟨hname, hkind, hsource, h⟩
    obtain ⟨name, kind, source, concern⟩ := e
    rw [Entry.mk.injEq]
    exact ⟨hname, hkind, hsource, Bool.eq_iff_iff.2 (h.trans hconcern.symm)⟩
  · rintro rfl
    exact ⟨rfl, rfl, rfl, hconcern⟩

variable {d : Disk} {limit : Nat} {markers : List String} {l : List Path} {p q : Path}
  {name : String} {e : Entry}

/-- The file can be read and defines a class or module with the name. -/
def Defines (d : Disk) (limit : Nat) (p : Path) (name : String) : Prop :=
  ∃ program, d.Reads limit p program ∧
    ∃ found ∈ (Survey.ofStatements program.statements).definitions, found.name = name

def entryOf? (d : Disk) (limit : Nat) (markers : List String) (name : String) (p : Path) :
    Option Entry :=
  (fileEntries d limit markers p).find? fun e => e.name == name

theorem entryOf?_eq_some_iff : entryOf? d limit markers name p = some e ↔
    ∃ program, d.Reads limit p program ∧ ∃ found,
      (Survey.ofStatements program.statements).definitions.find? (·.name == name) = some found ∧
        Describes markers e p (Survey.ofStatements program.statements) found := by
  simp only [describes_iff]
  rw [entryOf?, fileEntries]
  cases hread : d.readSurvey limit p with
  | error fault =>
    constructor
    · intro h
      cases h
    · rintro ⟨program, hreads, -⟩
      rw [Disk.readSurvey_eq_ok_iff.2 ⟨program, hreads, rfl⟩] at hread
      cases hread
  | ok survey =>
    obtain ⟨program, hreads, rfl⟩ := Disk.readSurvey_eq_ok_iff.1 hread
    dsimp only
    rw [entriesFor, List.find?_map, Option.map_eq_some_iff]
    constructor
    · rintro ⟨found, hfound, rfl⟩
      exact ⟨program, hreads, found, hfound, rfl⟩
    · rintro ⟨program', hreads', found, hfound, rfl⟩
      rw [hreads'.unique hreads] at hfound ⊢
      exact ⟨found, hfound, rfl⟩

theorem isSome_entryOf?_iff :
    (entryOf? d limit markers name p).isSome = true ↔ Defines d limit p name := by
  rw [Option.isSome_iff_exists]
  simp only [entryOf?_eq_some_iff, describes_iff]
  constructor
  · rintro ⟨e, program, hreads, found, hfound, -⟩
    have hname := List.find?_some hfound
    exact ⟨program, hreads, found, List.mem_of_find?_eq_some hfound, beq_iff_eq.1 hname⟩
  · rintro ⟨program, hreads, found, hmem, hname⟩
    have hsome : ((Survey.ofStatements program.statements).definitions.find?
        (·.name == name)).isSome = true :=
      List.find?_isSome.2 ⟨found, hmem, beq_iff_eq.2 hname⟩
    obtain ⟨first, hfirst⟩ := Option.isSome_iff_exists.1 hsome
    exact ⟨_, program, hreads, first, hfirst, rfl⟩

/-! ## The registry of a list of files -/

/-- Files whose classes and modules are named by tokens as a parser makes them, without a colon. -/
def PlainFiles (d : Disk) (limit : Nat) (l : List Path) : Prop :=
  ∀ p ∈ l, ∀ program, d.Reads limit p program → PlainNames program.statements

/-- Paths that end in a name, to files whose classes and modules are named by tokens. -/
structure SourceList (d : Disk) (limit : Nat) (l : List Path) : Prop where
  named : ∀ p ∈ l, d.NamesFile p
  plain : PlainFiles d limit l

theorem SourceList.subset {m : List Path} (h : SourceList d limit l) (hm : m ⊆ l) :
    SourceList d limit m :=
  ⟨fun p hp => h.named p (hm hp), fun p hp => h.plain p (hm hp)⟩

/-- Of the files in the list that define the name, none comes before the one at `p`, and `found` is
the first definition of the name in it. Among the spellings of its place, `p` is listed first. -/
structure FirstDefinition (d : Disk) (limit : Nat) (l : List Path) (name : String) (p : Path)
    (program : Syntax.Program) (found : Definition) : Prop where
  listed : l.find? p.samePlace = some p
  reads : d.Reads limit p program
  found : (Survey.ofStatements program.statements).definitions.find? (·.name == name) = some found
  first : ∀ q ∈ l, Defines d limit q name → ¬q.before p = true

theorem unroot_fileEntries (h : PlainFiles d limit l) {e : Entry}
    (he : e ∈ l.flatMap (fileEntries d limit markers)) : Name.unroot e.name = e.name := by
  obtain ⟨p, hp, he⟩ := List.mem_flatMap.1 he
  rw [fileEntries] at he
  split at he
  · rename_i survey hread
    obtain ⟨program, hreads, rfl⟩ := Disk.readSurvey_eq_ok_iff.1 hread
    obtain ⟨found, hfound, rfl⟩ := List.mem_map.1 he
    exact (h p hp program hreads).unroot_definition hfound
  · cases he

theorem get?_ofFiles (h : PlainFiles d limit l) (name : String) :
    (ofFiles d limit markers l).get? name = l.findSome? (entryOf? d limit markers name) := by
  have hempty : (∅ : Registry).get? name = none := rfl
  rw [ofFiles, get?_foldl_defineNew (fun e he => unroot_fileEntries h he), hempty, Option.none_or,
    List.find?_flatMap]
  rfl

/-- The registry of some files, each taken once and in path order. -/
def index (d : Disk) (limit : Nat) (markers : List String) (l : List Path) : Registry :=
  ofFiles d limit markers (Disk.inOrder l)

theorem get?_index (h : SourceList d limit l) (name : String) :
    (index d limit markers l).get? name =
      (Disk.inOrder l).findSome? (entryOf? d limit markers name) :=
  get?_ofFiles (fun p hp => h.plain p (Disk.mem_of_mem_inOrder hp)) name

theorem defines_congr (h : SourceList d limit l) {m : List Path} (hm : SourceList d limit m)
    (hp : p ∈ l) (hq : q ∈ m) (hplace : p.components = q.components) :
    Defines d limit p name ↔ Defines d limit q name := by
  simp only [Defines, (h.named p hp).reads_congr (hm.named q hq) hplace]

theorem get?_index_eq_some_iff (h : SourceList d limit l) :
    (index d limit markers l).get? name = some e ↔
      ∃ p program found, FirstDefinition d limit l name p program found ∧
        Describes markers e p (Survey.ofStatements program.statements) found := by
  rw [get?_index h, Disk.findSome?_eq_some_iff_first (Disk.pairwise_inOrder l)]
  simp only [isSome_entryOf?_iff, entryOf?_eq_some_iff]
  constructor
  · rintro ⟨p, hp, ⟨program, hreads, found, hfound, hdescribes⟩, hfirst⟩
    refine ⟨p, program, found, ⟨Disk.mem_inOrder_iff.1 hp, hreads, hfound, ?_⟩, hdescribes⟩
    intro q hq hdefines
    -- The sorted list may hold another spelling of this file, which defines the same names.
    obtain ⟨r, hr, hplace⟩ := Disk.exists_mem_inOrder hq
    have hdefines := (defines_congr h h hq (Disk.mem_of_mem_inOrder hr) hplace).1 hdefines
    rw [(Path.before_congr hplace).1]
    exact Path.notAfter_iff.1 (hfirst r hr hdefines)
  · rintro ⟨p, program, found, ⟨hlisted, hreads, hfound, hfirst⟩, hdescribes⟩
    refine ⟨p, Disk.mem_inOrder_iff.2 hlisted, ⟨program, hreads, found, hfound, hdescribes⟩, ?_⟩
    intro q hq hdefines
    exact Path.notAfter_iff.2 (hfirst q (Disk.mem_of_mem_inOrder hq) hdefines)

theorem exists_get?_index_iff (h : SourceList d limit l) :
    (∃ e, (index d limit markers l).get? name = some e) ↔ ∃ p ∈ l, Defines d limit p name := by
  rw [get?_index h, ← Option.isSome_iff_exists, List.findSome?_isSome_iff]
  simp only [isSome_entryOf?_iff]
  constructor
  · rintro ⟨p, hp, hdefines⟩
    exact ⟨p, Disk.mem_of_mem_inOrder hp, hdefines⟩
  · rintro ⟨p, hp, hdefines⟩
    obtain ⟨q, hq, hplace⟩ := Disk.exists_mem_inOrder hp
    exact ⟨q, hq, (defines_congr h h hp (Disk.mem_of_mem_inOrder hq) hplace).1 hdefines⟩

end Registry

end ModelSurvey
