import ModelSurvey.Analysis
import ModelSurvey.Proofs.Expansion.SharedSource
import ModelSurvey.Proofs.Expansion.Visiting
import ModelSurvey.Proofs.Registry.FirstDefinition

/-! The registry of a project and the runs that use it read the same files. An entry has the path of
the file it was taken from, and no two of these paths are spellings of one place. So whatever a run
has read before, a concern brings the bodies in the very file whose module extends the marker. -/
namespace ModelSurvey
set_option autoImplicit false
open Syntax

namespace Expansion

/-! ## Memories within runs -/

variable (s : Sources)

/-- The memories that runs lead to, at any of their steps: a run looks up names, and it recalls
mixins of known modules. -/
inductive Arises : Memory s.registry → Prop where
  | fresh : Arises .fresh
  | resolved {memory : Memory s.registry} (space name : String) :
      Arises memory → Arises (memory.resolve space name).2
  | recalled {memory : Memory s.registry} {ref : Registry.Reference} :
      Arises memory → s.registry.get? ref.name = some ref.entry →
        Arises (recallMixin s memory ref).2

variable {s}

theorem Arises.faithful {memory : Memory s.registry} (h : Arises s memory) :
    Faithful s memory := by
  induction h with
  | fresh => exact faithful_fresh s
  | resolved space name _ ih =>
    exact ih.of_eq (Memory.tables_resolve ..) (Memory.mixins_resolve ..)
  | recalled _ href ih => exact ih.recallMixin _ href

theorem Arises.takeArgument {g : Gathering s.registry} (h : Arises s g.memory) (space : String)
    (argument : Node) : Arises s (takeArgument s space g argument).memory := by
  unfold Expansion.takeArgument
  split
  · rename_i name _
    have hasked := h.resolved space name
    dsimp only
    split
    · exact hasked
    · rename_i ref href
      rw [Memory.resolve_fst] at href
      split
      · exact hasked
      · exact hasked.recalled (get?_of_resolve href)
  · exact h

theorem Arises.expandFrom {memory : Memory s.registry} (h : Arises s memory) (space : String)
    (visited : List String) (bucket : List Declaration) :
    Arises s (expandFrom s space memory visited bucket).memory :=
  expandFrom_preserves s (fun space _ n hg => hg.takeArgument space n) space h visited bucket

theorem Arises.foldl_visit (state : (Memory s.registry × Stats) × Table)
    (h : Arises s state.1.1) (order : List String) :
    Arises s (order.foldl (visit s) state).1.1 := by
  induction order generalizing state with
  | nil => exact h
  | cons space order ih => exact ih (visit s state space) (h.expandFrom space [] _)

theorem Arises.expand {memory : Memory s.registry} (h : Arises s memory) (enabled : Bool)
    (t : Table) : Arises s (expand s enabled memory t).1.1 := by
  cases enabled with
  | false => exact h
  | true =>
    rw [expand_eq_expandInOrder]
    exact h.foldl_visit ((memory, {}), t) t.namespaces

/-! ## One source, one reading -/

/-- A source that is no other spelling of another source reads as it does without a memory. -/
theorem Faithful.recallTable_eq {m : Memory s.registry} (h : Faithful s m) {p : Path}
    (hp : ∀ name q, s.ConcernAt name q → q.components = p.components → q = p) :
    (recallTable s m p).1 = s.table? p := by
  rw [recallTable]
  split
  · rename_i known hknown
    obtain ⟨name, q, hq, hcomp, rfl⟩ := h.tables _ known hknown
    rw [hp name q hq hcomp]
  · rfl

theorem loadMixin_of_table {m : Memory s.registry} {ref : Registry.Reference} {p : Path} {t : Table}
    (hc : ref.entry.isConcern = true) (hp : ref.entry.source = some p)
    (ht : (recallTable s m p).1 = some t) :
    (loadMixin s m ref).1 = ⟨ref.name, true, some p, includedBodies t ref.name⟩ := by
  simp [loadMixin, hc, hp, ht]

/-- A remembered mixin is the one that loading it again would give. -/
theorem Faithful.recallMixin_of_table {m : Memory s.registry} (h : Faithful s m)
    {ref : Registry.Reference} {p : Path} {t : Table}
    (href : s.registry.get? ref.name = some ref.entry) (hc : ref.entry.isConcern = true)
    (hp : ref.entry.source = some p) (ht : (recallTable s m p).1 = some t) :
    (Expansion.recallMixin s m ref).1 = ⟨ref.name, true, some p, includedBodies t ref.name⟩ := by
  rw [Expansion.recallMixin]
  split
  · rename_i known hknown
    obtain ⟨e, he, rfl, hread⟩ := h.mixins ref.name known hknown
    rw [href, Option.some.injEq] at he
    subst he
    obtain ⟨read, hlookup⟩ := hread p hc hp
    have hread : read = some t := by
      rw [recallTable, hlookup] at ht
      exact ht
    simp [entryBodies, hc, hp, Memory.read, hlookup, hread]
  · exact loadMixin_of_table hc hp ht

end Expansion

namespace Registry
open Expansion

/-! ## Where entries come from -/

variable {d : Disk} {limit : Nat} {markers : List String} {l : List Path} {name : String}
  {e : Entry} {p : Path} {survey : Survey}

/-- The entry of a name describes its first definition in the file at `p`, which is one of the
listed files and reads as the survey. -/
structure TakenFrom (d : Disk) (limit : Nat) (markers : List String) (l : List Path)
    (name : String) (e : Entry) (p : Path) (survey : Survey) : Prop where
  listed : p ∈ l
  read : d.readSurvey limit p = .ok survey
  described : ∃ found, survey.definitions.find? (·.name == name) = some found ∧
    Describes markers e p survey found

theorem TakenFrom.source (h : TakenFrom d limit markers l name e p survey) :
    e.source = some p := by
  obtain ⟨found, -, hdescribes⟩ := h.described
  exact hdescribes.source

theorem TakenFrom.extends (h : TakenFrom d limit markers l name e p survey)
    (hc : e.isConcern = true) : Extends survey.table name markers := by
  obtain ⟨found, hfound, hdescribes⟩ := h.described
  have hname := List.find?_some hfound
  rw [beq_iff_eq] at hname
  rw [Entry.isConcern, Bool.and_eq_true] at hc
  exact hname ▸ (hdescribes.concern.1 hc.2).2

theorem TakenFrom.table?_eq {s : Sources} (h : TakenFrom s.disk s.limit markers l name e p survey) :
    s.table? p = some survey.table := by
  rw [Sources.table?, toOption_eq_some_iff.2 h.read, Option.map_some]

theorem exists_takenFrom (h : PlainFiles d limit l)
    (he : (ofFiles d limit markers l).get? name = some e) :
    ∃ p survey, TakenFrom d limit markers l name e p survey := by
  rw [get?_ofFiles h] at he
  obtain ⟨p, hp, hentry⟩ := List.exists_of_findSome?_eq_some he
  obtain ⟨program, hreads, hdescribed⟩ := entryOf?_eq_some_iff.1 hentry
  exact ⟨p, _, hp, Disk.readSurvey_eq_ok_iff.2 ⟨program, hreads, rfl⟩, hdescribed⟩

end Registry

namespace Analyzer
open Expansion Registry

/-! ## Analyzers of projects -/

/-- The files that make up the registry of a project. -/
def scanned (d : Disk) (settings : Settings) : List Path :=
  d.sourceFiles settings.registry.effectiveRoots settings.registry.extraIgnore
    settings.registry.effectiveFollowSymlinks

variable {d : Disk} {settings : Settings}

section agreement

variable (h : PlainFiles d settings.parser.effectiveMaxFileSize (scanned d settings))
include h

theorem exists_takenFrom_scanned {name : String} {e : Entry}
    (he : (ofProject d settings).registry.get? name = some e) : ∃ p survey,
      TakenFrom d settings.parser.effectiveMaxFileSize settings.expansion.effectiveConcernMarkers
        (scanned d settings) name e p survey := exists_takenFrom h he

theorem mem_scanned_of_concernAt {name : String} {p : Path}
    (hp : ((ofProject d settings).sources d).ConcernAt name p) : p ∈ scanned d settings := by
  obtain ⟨e, he, -, hsource⟩ := hp
  obtain ⟨q, survey, ht⟩ := exists_takenFrom_scanned h he
  rw [ht.source, Option.some.injEq] at hsource
  exact hsource ▸ ht.listed

/-- Sources of concerns that are spellings of one place are one path. -/
theorem eq_of_concernAt {m n : String} {p q : Path}
    (hp : ((ofProject d settings).sources d).ConcernAt m p)
    (hq : ((ofProject d settings).sources d).ConcernAt n q) (hcomp : p.components = q.components) :
    p = q :=
  Disk.eq_of_mem_of_components_eq (Disk.pairwise_inOrder _) (mem_scanned_of_concernAt h hp)
    (mem_scanned_of_concernAt h hq) hcomp

end agreement

/-- Every entry of a project's registry has the path of a file that reads as it did for the scan,
and every concern brings, at any step of any run, the bodies that this file has for it. -/
theorem concerns_bring_scanned_bodies (d : Disk) (settings : Settings)
    (h : PlainFiles d settings.parser.effectiveMaxFileSize (scanned d settings)) :
    let a := ofProject d settings
    let s := a.sources d
    let taken := TakenFrom d a.limit settings.expansion.effectiveConcernMarkers
      (scanned d settings)
    (∀ name e, a.registry.get? name = some e → ∃ p survey,
      taken name e p survey ∧ e.source = some p ∧ s.table? p = some survey.table) ∧
    s.ReadsAlike ∧
    (∀ memory, Arises s memory → ∀ enabled t, Arises s (expand s enabled memory t).1.1) ∧
    ∀ memory, Arises s memory → ∀ ref, a.registry.get? ref.name = some ref.entry →
      ref.entry.isConcern = true → ∃ p survey, taken ref.name ref.entry p survey ∧
        (recallTable s memory p).1 = some survey.table ∧
        (let mixin : Mixin := ⟨ref.name, true, some p, includedBodies survey.table ref.name⟩
        (loadMixin s memory ref).1 = mixin ∧ (recallMixin s memory ref).1 = mixin) ∧
        Extends survey.table ref.name settings.expansion.effectiveConcernMarkers := by
  intro a s taken
  refine ⟨?_, ?_, fun memory hm enabled t => hm.expand enabled t, ?_⟩
  · intro name e he
    obtain ⟨p, survey, ht⟩ := exists_takenFrom_scanned h he
    exact ⟨p, survey, ht, ht.source, TakenFrom.table?_eq (s := s) ht⟩
  · intro m n p q hm hn hcomp
    rw [eq_of_concernAt h hm hn hcomp]
  · intro memory hm ref href hc
    obtain ⟨p, survey, ht⟩ := exists_takenFrom_scanned h href
    have hsource : s.ConcernAt ref.name p := ⟨ref.entry, href, hc, ht.source⟩
    have hread : (recallTable s memory p).1 = some survey.table := by
      rw [hm.faithful.recallTable_eq fun name q hq hcomp => eq_of_concernAt h hq hsource hcomp]
      exact TakenFrom.table?_eq (s := s) ht
    exact ⟨p, survey, ht, hread, ⟨loadMixin_of_table hc ht.source hread,
      hm.faithful.recallMixin_of_table href hc ht.source hread⟩, ht.extends hc⟩

/-! ## A project of one concern -/

def taggedFile : File where
  source := .ofString "module Tagged\nextend Marker\nincluded do\nx\nend\nend\n"
  tree := Tree.clean "program" none 0 50 [
    .clean "module" none 0 49 [
      keyword "module" 0 6,
      .clean "constant" (some "name") 7 13 [],
      .clean "body_statement" (some "body") 14 45 [
        .clean "call" none 14 27 [
          .clean "identifier" (some "method") 14 20 [],
          .clean "argument_list" (some "arguments") 21 27 [.clean "constant" none 21 27 []]],
        .clean "call" none 28 45 [
          .clean "identifier" (some "method") 28 36 [],
          .clean "do_block" (some "block") 37 45 [
            keyword "do" 37 39,
            .clean "body_statement" (some "body") 40 41 [.clean "identifier" none 40 41 []],
            keyword "end" 42 45]]],
      keyword "end" 46 49]]

def taggedModule : Node :=
  .space ⟨.moduleBody, .constant "Tagged", none, [
    .call ⟨none, "extend", [.constant "Marker"], none, 2⟩,
    .call ⟨none, "included", [], some ⟨none, [.call ⟨none, "x", [], none, 4⟩]⟩, 3⟩], 1⟩

def tagged : Disk := ⟨⟨"/app"⟩, [(["tagged.rb"], .file taggedFile)]⟩

def taggedSettings : Settings where
  registry := { roots := ["."] }
  expansion := { concernMarkers := ["::Marker"] }

theorem reads_tagged : tagged.Reads 1048576 ⟨"/app/./tagged.rb"⟩ ⟨[taggedModule], 0⟩ := by
  have hopen : tagged.open? ⟨"/app/./tagged.rb"⟩ = .ok (.file taggedFile) :=
    Disk.open?_eq_file ["."] rfl (by decide) (by decide) (by decide) rfl
  exact ⟨taggedFile, hopen, by decide, ⟨_, rfl⟩, rfl⟩

theorem level_tagged : tagged.level [] 0 = ⟨0, false, [], [], []⟩ := by
  have habsent : ∀ name ∈ [".git", ".jj", ".ignore", ".gitignore"], ∀ rest,
      tagged.follow Disk.linkLimit [] (name :: rest) = .error .absent := by
    intro name hname rest
    simp only [List.mem_cons, List.not_mem_nil, or_false] at hname
    rcases hname with rfl | rfl | rfl | rfl <;>
      exact Disk.follow_absent rfl (by decide) (by decide) rfl rest
  rw [Disk.level, Disk.bytesAt, Disk.bytesAt, Disk.bytesAt, habsent ".ignore" (by simp),
    habsent ".gitignore" (by simp), habsent ".git" (by simp), List.any_cons, List.any_cons,
    habsent ".git" (by simp), habsent ".jj" (by simp)]
  rfl

theorem files_tagged (path : Path) :
    Disk.Walk.files ⟨tagged, false, [], 0⟩ [] [] [] [] path = [path.join "tagged.rb"] := by
  have hchildren : tagged.children false [[]] [] = [⟨"tagged.rb", ["tagged.rb"], false⟩] := rfl
  have hhides : Disk.Walk.hides ⟨tagged, false, [], 0⟩ [⟨0, false, [], [], []⟩] ["tagged.rb"]
      false = false := rfl
  have hextension : Path.extensionOf "tagged.rb" = some "rb" := by decide +kernel
  rw [Disk.Walk.files]
  simp only [List.length_nil, level_tagged]
  generalize tagged.children false [[]] [] = children at *
  subst hchildren
  simp [hhides, hextension]

theorem scanned_tagged : scanned tagged taggedSettings = [⟨"/app/./tagged.rb"⟩] := by
  have hroots : taggedSettings.registry.effectiveRoots = ["."] := rfl
  have hroot : tagged.top.join "." = ⟨"/app/."⟩ := rfl
  have hpieces : tagged.piecesBelow? ⟨"/app/."⟩ = some ["."] := rfl
  have hfollow : tagged.follow Disk.linkLimit [] ["."] = .ok [] := by
    rw [Disk.follow_void rfl (Or.inr rfl), Disk.follow_nil]
  have hbelow : tagged.filesBelow false (Disk.extraRules []) ⟨"/app/."⟩ =
      [⟨"/app/./tagged.rb"⟩] := by
    rw [Disk.filesBelow, Disk.locate, hpieces]
    dsimp only
    rw [hfollow]
    exact files_tagged _
  rw [scanned, hroots, Disk.sourceFiles, List.flatMap_singleton, hroot]
  exact (congrArg Disk.inOrder hbelow).trans (by simp [Disk.inOrder, Disk.dropRepeats])

theorem readSurvey_tagged : tagged.readSurvey 1048576 ⟨"/app/./tagged.rb"⟩ =
    .ok (Survey.ofStatements [taggedModule]) :=
  Disk.readSurvey_eq_ok_iff.2 ⟨_, reads_tagged, rfl⟩

theorem get?_tagged : (ofProject tagged taggedSettings).registry.get? "Tagged" =
    some ⟨"Tagged", .moduleBody, some ⟨"/app/./tagged.rb"⟩, true⟩ := by
  have hfiles : tagged.sourceFiles taggedSettings.registry.effectiveRoots
      taggedSettings.registry.extraIgnore taggedSettings.registry.effectiveFollowSymlinks =
        [⟨"/app/./tagged.rb"⟩] := scanned_tagged
  have hlimit : taggedSettings.parser.effectiveMaxFileSize = 1048576 := rfl
  rw [ofProject, scan, hfiles, hlimit, ofFiles, List.flatMap_singleton, fileEntries,
    readSurvey_tagged]
  decide +kernel

theorem concerns_bring_scanned_bodies_tagged :
    let s := (ofProject tagged taggedSettings).sources tagged
    PlainFiles tagged taggedSettings.parser.effectiveMaxFileSize
        (scanned tagged taggedSettings) ∧
      ∃ ref, s.registry.get? "Tagged" = some ref.entry ∧ ref.entry.isConcern = true ∧
        (recallMixin s .fresh ref).1.bodies.map (·.name) = ["x"] := by
  intro s
  have hplain : PlainFiles tagged taggedSettings.parser.effectiveMaxFileSize
      (scanned tagged taggedSettings) := by
    intro p hp program hreads
    rw [scanned_tagged, List.mem_singleton] at hp
    subst hp
    rw [hreads.unique reads_tagged]
    exact plainNames_iff.2 (by decide +kernel)
  obtain ⟨-, -, -, hruns⟩ := concerns_bring_scanned_bodies tagged taggedSettings hplain
  obtain ⟨p, survey, htaken, -, ⟨-, hmixin⟩, -⟩ :=
    hruns .fresh .fresh ⟨"Tagged", _⟩ get?_tagged rfl
  have hp := htaken.source
  rw [Option.some.injEq] at hp
  have hread : tagged.readSurvey 1048576 p = .ok survey := htaken.read
  rw [← hp, readSurvey_tagged, Except.ok.injEq] at hread
  refine ⟨hplain, ⟨"Tagged", _⟩, get?_tagged, rfl, ?_⟩
  rw [hmixin, ← hread]
  show (includedBodies (Survey.ofStatements [taggedModule]).table "Tagged").map (·.name) = ["x"]
  decide +kernel

end Analyzer

end ModelSurvey
