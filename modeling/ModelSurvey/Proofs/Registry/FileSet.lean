import ModelSurvey.Proofs.Registry.FirstDefinition
import ModelSurvey.Proofs.Syntax.Nodes

/-! The registry of a project depends on the set of its source files only. A list of files may be in
any order, name a file several times and spell its path in several ways. Files behind all others
and files that cannot be read add entries at most, and leave those that exist as they are. -/
namespace ModelSurvey.Registry
set_option autoImplicit false
open Syntax

variable {d : Disk} {limit : Nat} {markers : List String} {l m : List Path} {p q : Path}
  {name : String} {e : Entry}

/-! ## Lists of the same places -/

/-- What an entry says, its source up to the spelling of the path. -/
def Entry.placed (e : Entry) : String × NamespaceKind × Option (List Path.Component) × Bool :=
  (e.name, e.kind, e.source.map Path.components, e.concern)

theorem entryOf?_respelled (hl : SourceList d limit l) (hm : SourceList d limit m)
    (hp : p ∈ l) (hq : q ∈ m) (hplace : p.components = q.components)
    (he : entryOf? d limit markers name p = some e) :
    ∃ e', entryOf? d limit markers name q = some e' ∧ e.placed = e'.placed := by
  obtain ⟨program, hreads, found, hfound, hdescribes⟩ := entryOf?_eq_some_iff.1 he
  have hreads' := ((hl.named p hp).reads_congr (hm.named q hq) hplace).1 hreads
  refine ⟨{ e with source := some q }, entryOf?_eq_some_iff.2 ⟨program, hreads', found, hfound,
    hdescribes.name, hdescribes.kind, rfl, hdescribes.concern⟩, ?_⟩
  simp only [Entry.placed, hdescribes.source, Option.map_some, hplace]

theorem placed_entryOf?_eq (hl : SourceList d limit l) (hm : SourceList d limit m)
    (hp : p ∈ l) (hq : q ∈ m) (hplace : p.components = q.components) :
    (entryOf? d limit markers name p).map Entry.placed =
      (entryOf? d limit markers name q).map Entry.placed := by
  cases he : entryOf? d limit markers name p with
  | some e =>
    obtain ⟨e', he', hplaced⟩ := entryOf?_respelled hl hm hp hq hplace he
    rw [he', Option.map_some, Option.map_some, hplaced]
  | none =>
    cases he' : entryOf? d limit markers name q with
    | none => rfl
    | some e' =>
      obtain ⟨e, hsome, -⟩ := entryOf?_respelled hm hl hq hp hplace.symm he'
      rw [he] at hsome
      cases hsome

theorem findSome?_eq_of_components {α β : Type} {g : Path → Option α} {k : α → β}
    {l m : List Path} (hlm : l.map Path.components = m.map Path.components)
    (hg : ∀ p ∈ l, ∀ q ∈ m, p.components = q.components → (g p).map k = (g q).map k) :
    (l.findSome? g).map k = (m.findSome? g).map k := by
  induction l generalizing m with
  | nil =>
    rw [List.map_nil, eq_comm, List.map_eq_nil_iff] at hlm
    rw [hlm]
  | cons p l ih =>
    obtain ⟨q, m, rfl, hpq, hrest⟩ := List.map_eq_cons_iff.1 hlm.symm
    have hhead := hg p (List.mem_cons_self ..) q (List.mem_cons_self ..) hpq.symm
    have htail := ih hrest.symm fun p' hp' q' hq' =>
      hg p' (List.mem_cons_of_mem p hp') q' (List.mem_cons_of_mem q hq')
    rw [List.findSome?_cons, List.findSome?_cons]
    cases hp : g p with
    | some a =>
      rw [hp, Option.map_some] at hhead
      obtain ⟨b, hb, hab⟩ := Option.map_eq_some_iff.1 hhead.symm
      rw [hb, Option.map_some, Option.map_some, hab]
    | none =>
      rw [hp, Option.map_none, eq_comm, Option.map_eq_none_iff] at hhead
      rw [hhead]
      exact htail

/-- Lists of the same places give the same entries, but for how a source is spelled. -/
theorem placed_get?_index_eq (hl : SourceList d limit l) (hm : SourceList d limit m)
    (h : Disk.SamePlaces l m) (name : String) :
    ((index d limit markers l).get? name).map Entry.placed =
      ((index d limit markers m).get? name).map Entry.placed := by
  rw [get?_index hl, get?_index hm]
  refine findSome?_eq_of_components (Disk.components_inOrder_eq h) fun p hp q hq hplace => ?_
  exact placed_entryOf?_eq hl hm (Disk.mem_of_mem_inOrder hp) (Disk.mem_of_mem_inOrder hq) hplace

theorem SourceList.of_samePlaces (hl : SourceList d limit l) (hm : ∀ q ∈ m, d.NamesFile q)
    (h : Disk.SamePlaces l m) : SourceList d limit m := by
  refine ⟨hm, fun q hq program hreads => ?_⟩
  obtain ⟨p, hp, hplace⟩ := h.symm.exists_mem hq
  exact hl.plain p hp program (((hm q hq).reads_congr (hl.named p hp) hplace).1 hreads)

/-! ## More files -/

/-- Files that come later or cannot be read leave every entry as it is. -/
theorem get?_index_append {d' : Disk} {extra : List Path} (h : SourceList d limit l)
    (h' : SourceList d' limit (l ++ extra))
    (hkept : ∀ p ∈ l, ∀ program, d.Reads limit p program ↔ d'.Reads limit p program)
    (hextra : ∀ q ∈ extra, (∀ p ∈ l, p.before q = true) ∨ ∀ program, ¬d'.Reads limit q program)
    (he : (index d limit markers l).get? name = some e) :
    (index d' limit markers (l ++ extra)).get? name = some e := by
  obtain ⟨p, program, found, hdefinition, hdescribes⟩ := (get?_index_eq_some_iff h).1 he
  have hp : p ∈ l := List.mem_of_find?_eq_some hdefinition.listed
  refine (get?_index_eq_some_iff h').2 ⟨p, program, found, ⟨?_, ?_, hdefinition.found, ?_⟩,
    hdescribes⟩
  · rw [List.find?_append, hdefinition.listed, Option.some_or]
  · exact (hkept p hp program).1 hdefinition.reads
  · rintro q hq ⟨program', hreads', hdefines⟩
    rcases List.mem_append.1 hq with hq | hq
    · exact hdefinition.first q hq ⟨program', (hkept q hq program').2 hreads', hdefines⟩
    · rcases hextra q hq with hlater | hunread
      · exact Path.before_asymm (hlater p hp)
      · exact absurd hreads' (hunread program')

/-! ## Scanning -/

theorem scan_eq_index (d : Disk) (settings : Settings) :
    scan d settings.registry settings.expansion settings.parser =
      index d settings.parser.effectiveMaxFileSize settings.expansion.effectiveConcernMarkers
        (d.discovered settings.registry.effectiveRoots settings.registry.extraIgnore
          settings.registry.effectiveFollowSymlinks) := by
  rw [scan, Disk.sourceFiles_eq, index]

/-- A scan takes the files that the walks find, and its registry depends on nothing but which files
these are: a name has the entry of its first definition in path order. -/
theorem scan_takes_first (settings : Settings) :
    let limit := settings.parser.effectiveMaxFileSize
    let markers := settings.expansion.effectiveConcernMarkers
    (∀ d : Disk, d.Proper →
      let found := d.discovered settings.registry.effectiveRoots settings.registry.extraIgnore
        settings.registry.effectiveFollowSymlinks
      scan d settings.registry settings.expansion settings.parser = index d limit markers found ∧
        ∀ p ∈ found, d.NamesFile p) ∧
    ∀ (d : Disk) (l : List Path), SourceList d limit l →
      (∀ name, (∃ e, (index d limit markers l).get? name = some e) ↔
        ∃ p ∈ l, Defines d limit p name) ∧
      (∀ name e, (index d limit markers l).get? name = some e ↔
        ∃ p program found, FirstDefinition d limit l name p program found ∧
          Describes markers e p (Survey.ofStatements program.statements) found) ∧
      (∀ m : List Path, (∀ q ∈ m, d.NamesFile q) → Disk.SamePlaces l m →
        (∀ name, ((index d limit markers l).get? name).map Entry.placed =
          ((index d limit markers m).get? name).map Entry.placed) ∧
        ((∀ p ∈ l, ∀ q ∈ m, p.components = q.components → p = q) →
          index d limit markers l = index d limit markers m)) ∧
      ∀ (d' : Disk) (extra : List Path), SourceList d' limit (l ++ extra) →
        (∀ p ∈ l, ∀ program, d.Reads limit p program ↔ d'.Reads limit p program) →
        (∀ q ∈ extra, (∀ p ∈ l, p.before q = true) ∨ ∀ program, ¬d'.Reads limit q program) →
        ∀ name e, (index d limit markers l).get? name = some e →
          (index d' limit markers (l ++ extra)).get? name = some e := by
  intro limit markers
  refine ⟨fun d hd => ⟨scan_eq_index d settings, fun p hp => ?_⟩, ?_⟩
  · exact Disk.namesFile_of_mem_discovered hd hp
  intro d l h
  refine ⟨fun name => exists_get?_index_iff h, fun name e => get?_index_eq_some_iff h, ?_, ?_⟩
  · intro m hm hplaces
    refine ⟨placed_get?_index_eq h (h.of_samePlaces hm hplaces) hplaces, fun hspelled => ?_⟩
    rw [index, index, Disk.inOrder_eq hplaces hspelled]
  · intro d' extra h' hkept hextra name e he
    exact get?_index_append h h' hkept hextra he

/-! ## A module and a class of one name -/

def sharedModule : File where
  source := .ofString "module Shared\nextend ActiveSupport::Concern\nend\n"
  tree := Tree.clean "program" none 0 48 [
    .clean "module" none 0 47 [
      .clean "constant" (some "name") 7 13 [],
      .clean "body_statement" (some "body") 14 43 [
        .clean "call" none 14 43 [
          .clean "identifier" (some "method") 14 20 [],
          .clean "argument_list" (some "arguments") 21 43 [
            .clean "scope_resolution" none 21 43 [
              .clean "constant" (some "scope") 21 34 [],
              .clean "constant" (some "name") 36 43 []]]]]]]

def sharedClass : File where
  source := .ofString "class Shared\nend\n"
  tree := Tree.clean "program" none 0 17 [
    .clean "class" none 0 16 [.clean "constant" (some "name") 6 12 []]]

/-- Two files that define one name, the first as a module. -/
def twin : Disk := ⟨⟨"/app"⟩, [(["a.rb"], .file sharedModule), (["b.rb"], .file sharedClass)]⟩

def marker : Node := .constantPath (some (.constant "ActiveSupport")) "Concern"

def extendCall : Call := ⟨none, "extend", [marker], none, 2⟩

def sharedSpace (kind : NamespaceKind) (body : List Node) : Node :=
  .space ⟨kind, .constant "Shared", none, body, 1⟩

theorem plainNames_shared {kind : NamespaceKind} {body : List Node}
    (hbody : ∀ n ∈ body, n = .call extendCall) : PlainNames [sharedSpace kind body] := by
  intro o ho
  have hnode := ho.node_of_parts (motive := fun n => n ∈ [sharedSpace kind body,
    .constant "Shared", .call extendCall, marker, .constant "ActiveSupport"]) (by simp) ?_
  · intro s hs
    simp only [hs, marker, List.mem_cons, List.not_mem_nil, reduceCtorEq, or_false, sharedSpace,
      Node.space.injEq] at hnode
    rw [hnode]
    simp [Node.tokens]
  · intro n hn p hp
    simp only [List.mem_cons, List.not_mem_nil, or_false] at hn
    rcases hn with rfl | rfl | rfl | rfl | rfl
    · rcases List.mem_cons.1 hp with rfl | hp
      · simp
      · rw [hbody _ (Role.mem_contents (r := p.1) hp)]
        simp
    · cases hp
    · have hmarker : p.2 ∈ [marker] := Role.mem_contents (r := p.1) hp
      rw [List.mem_singleton.1 hmarker]
      simp
    · have hscope : p.2 ∈ [Node.constant "ActiveSupport"] := Role.mem_contents (r := p.1) hp
      rw [List.mem_singleton.1 hscope]
      simp
    · cases hp

theorem open?_twin {p : Path} {name : String} {f : File} (hp : twin.piecesBelow? p = some [name])
    (hname : ¬Disk.Void name ∧ name ≠ "..") (hf : twin.item? [name] = some (.file f)) :
    twin.open? p = .ok (.file f) :=
  Disk.open?_eq_file [] hp (by simp) hname.1 hname.2 hf

theorem open?_twin_module : twin.open? ⟨"/app/a.rb"⟩ = .ok (.file sharedModule) :=
  open?_twin rfl (by decide) rfl

theorem open?_twin_class : twin.open? ⟨"/app/b.rb"⟩ = .ok (.file sharedClass) :=
  open?_twin rfl (by decide) rfl

theorem sourceList_twin :
    SourceList twin 1048576 [⟨"/app/a.rb"⟩, ⟨"/app/a.rb"⟩, ⟨"/app/b.rb"⟩] := by
  constructor
  · intro p hp
    simp only [List.mem_cons, List.not_mem_nil, or_false, or_self_left] at hp
    rcases hp with rfl | rfl
    · exact ⟨[], "a.rb", rfl, by decide⟩
    · exact ⟨[], "b.rb", rfl, by decide⟩
  · rintro p hp program ⟨f, hopen, -, -, hprogram⟩
    simp only [List.mem_cons, List.not_mem_nil, or_false, or_self_left] at hp
    rcases hp with rfl | rfl
    · rw [open?_twin_module] at hopen
      cases hopen
      cases hprogram
      exact @plainNames_shared .moduleBody [.call extendCall] (by simp)
    · rw [open?_twin_class] at hopen
      cases hopen
      cases hprogram
      exact @plainNames_shared .classBody [] (by simp)

theorem scan_takes_first_twin :
    let a : Path := ⟨"/app/a.rb"⟩
    let b : Path := ⟨"/app/b.rb"⟩
    let index := index twin 1048576 ["ActiveSupport::Concern"]
    let shared : Entry := ⟨"Shared", .moduleBody, some a, true⟩
    twin.Proper ∧ SourceList twin 1048576 [a, a] ∧
      scan twin {} {} {} = index (twin.discovered ["app/models"] [] false) ∧
      index [a, a] = index [a] ∧ (index [a, a]).get? "Shared" = some shared ∧
      (index [a, a, b]).get? "Shared" = some shared := by
  intro a b index shared
  have hproper : twin.Proper := by
    refine ⟨⟨['/', 'a', 'p'], 'p', rfl, by decide⟩, ?_⟩
    intro e he name hname
    simp only [twin, List.mem_cons, List.not_mem_nil, or_false] at he
    rcases he with rfl | rfl <;> rw [List.mem_singleton.1 hname] <;> decide
  have hall : SourceList twin 1048576 [a, a, b] := sourceList_twin
  have hsources : SourceList twin 1048576 [a, a] := hall.subset (by simp)
  obtain ⟨hscan, hlists⟩ := scan_takes_first {}
  obtain ⟨-, hentry, hsame, hmore⟩ := hlists twin [a, a] hsources
  have hshared : (index [a, a]).get? "Shared" = some shared := by
    have hreads : twin.Reads 1048576 a (.ofTree sharedModule.source (sharedModule.tree.get rfl)) :=
      ⟨sharedModule, open?_twin_module, by decide, ⟨_, rfl⟩, rfl⟩
    refine (hentry "Shared" shared).2 ⟨a, _, ⟨"Shared", .moduleBody, 1⟩,
      ⟨by decide +kernel, hreads, rfl, ?_⟩, ?_⟩
    · intro q hq _
      simp only [List.mem_cons, List.not_mem_nil, or_false, or_self] at hq
      rw [hq]
      decide
    · have hextends := extendsMarker_iff.1 (by decide +kernel :
        extendsMarker (Survey.ofStatements [sharedSpace .moduleBody [.call extendCall]]).table
          "Shared" ["ActiveSupport::Concern"] = true)
      exact ⟨rfl, rfl, rfl, fun _ => ⟨rfl, hextends⟩, fun _ => rfl⟩
  refine ⟨hproper, hsources, (hscan twin hproper).1, ?_, hshared, ?_⟩
  · refine (hsame [a] (fun q hq => hsources.named q (by simpa using hq)) ?_).2 ?_
    · simp [Disk.SamePlaces]
    · simp
  · refine hmore twin [b] hall (fun _ _ _ => Iff.rfl) ?_ "Shared" shared hshared
    intro q hq
    left
    intro p hp
    simp only [List.mem_cons, List.not_mem_nil, or_false, or_self] at hp hq
    rw [hp, hq]
    decide +kernel

end ModelSurvey.Registry
