import ModelSurvey.Proofs.Toml.Documents
import ModelSurvey.Settings.Toml

/-! Settings that are written and read again. What a section assigns are optional values, each under
its own key, and a list that is left out is an empty one. So every field is read by one lemma, from
the assignments of its section, and the document of the sections is read as they were. -/
namespace ModelSurvey
set_option autoImplicit false
open Toml

variable {α : Type} {key other : String} {f : α → Plain} {read : Toml → Option α}

/-! ## Values of fields -/

/-- A list as an optional value. -/
def ifSet (l : List String) : Option (List String) := if l.isEmpty then none else some l

theorem getD_ifSet (l : List String) : (ifSet l).getD [] = l := by
  cases l <;> rfl

theorem listAssignment_eq (key : String) (l : List String) :
    listAssignment key l = optionalAssignment key .strings (ifSet l) := by
  cases l <;> rfl

theorem lookup_optionalAssignment (key : String) (f : α → Plain) (v : Option α) :
    (entriesOf (optionalAssignment key f v)).lookup key = v.map fun a => (f a).toToml := by
  cases v with
  | none => rfl
  | some a => exact List.lookup_cons_self

theorem lookup_optionalAssignment_of_ne (h : key ≠ other) (f : α → Plain) (v : Option α) :
    (entriesOf (optionalAssignment other f v)).lookup key = none := by
  cases v with
  | none => rfl
  | some a => exact lookup_eq_none_of_not_mem (by simpa [entriesOf, optionalAssignment] using h)

theorem texts?_toToml (l : List String) : texts? (Plain.strings l).toToml = some l := by
  show (l.map Toml.string).mapM text? = some l
  induction l with
  | nil => rfl
  | cons s l ih => rw [List.map_cons, List.mapM_cons, ih]; rfl

theorem size?_toToml (n : Nat) : size? (Plain.integer n).toToml = some n := by
  rw [Plain.toToml, size?, if_pos (Int.natCast_nonneg n), Int.toNat_natCast]

theorem get?_of_lookup {es : Entries} {v : Option α} (place : Nat)
    (hlookup : es.lookup key = v.map fun a => (f a).toToml)
    (hread : ∀ a, read (f a).toToml = some a) :
    (SectionForm.keyed es).get? place key read = some v := by
  rw [SectionForm.get?, SectionForm.field?, hlookup]
  cases v with
  | none => rfl
  | some a => simp [hread]

/-! ## Sections -/

theorem entriesOf_append (l r : List (String × Plain)) :
    entriesOf (l ++ r) = entriesOf l ++ entriesOf r := List.map_append

theorem ParserSettings.ofForm?_entriesOf (s : ParserSettings) :
    ParserSettings.ofForm? (.keyed (entriesOf (optionalAssignment "max_file_size"
      (fun n => .integer (n : Nat)) s.maxFileSize))) = some s := by
  rw [ParserSettings.ofForm?, get?_of_lookup 0 (lookup_optionalAssignment _ _ _) size?_toToml]
  rfl

theorem RegistrySettings.ofForm?_entriesOf (s : RegistrySettings) :
    RegistrySettings.ofForm? (.keyed (entriesOf (listAssignment "roots" s.roots ++
      listAssignment "extra_ignore" s.extraIgnore ++
      optionalAssignment "follow_symlinks" .boolean s.followSymlinks))) = some s := by
  rw [RegistrySettings.ofForm?,
    get?_of_lookup (f := .strings) (v := ifSet s.roots) 0 ?_ texts?_toToml,
    get?_of_lookup (f := .strings) (v := ifSet s.extraIgnore) 1 ?_ texts?_toToml,
    get?_of_lookup (f := .boolean) (v := s.followSymlinks) 2 ?_ fun _ => rfl]
  · simp [getD_ifSet]
  all_goals
    simp [listAssignment_eq, entriesOf_append, List.lookup_append, lookup_optionalAssignment,
      lookup_optionalAssignment_of_ne]

theorem ExpansionSettings.ofForm?_entriesOf (s : ExpansionSettings) :
    ExpansionSettings.ofForm? (.keyed (entriesOf (optionalAssignment "enabled" .boolean s.enabled ++
      listAssignment "concern_markers" s.concernMarkers))) = some s := by
  rw [ExpansionSettings.ofForm?, get?_of_lookup (f := .boolean) (v := s.enabled) 0 ?_ fun _ => rfl,
    get?_of_lookup (f := .strings) (v := ifSet s.concernMarkers) 1 ?_ texts?_toToml]
  · simp [getD_ifSet]
  all_goals
    simp [listAssignment_eq, entriesOf_append, List.lookup_append, lookup_optionalAssignment,
      lookup_optionalAssignment_of_ne]

theorem Settings.ofEntries?_sections (s : Settings) :
    Settings.ofEntries? (s.sections.map Section.entry) = some s := by
  have hsection {key : String} {l : List (String × Plain)} {β : Type} [Inhabited β] {b : β}
      {read : SectionForm → Option β} {es : Entries}
      (hlookup : es.lookup key = some (.table .header (entriesOf l)))
      (hread : read (.keyed (entriesOf l)) = some b) : readSection? es key read = some b := by
    rw [readSection?, hlookup]
    exact hread
  rw [ofEntries?, hsection rfl s.parser.ofForm?_entriesOf,
    hsection rfl s.registry.ofForm?_entriesOf, hsection rfl s.expansion.ofForm?_entriesOf]
  rfl

/-! ## What is written -/

/-- Assignments to some of the given keys, in order, of values that the format can hold. -/
structure AssignsTo (keys : List String) (l : List (String × Plain)) : Prop where
  sublist : (l.map Prod.fst).Sublist keys
  values : ∀ a ∈ l, a.2.IsWritable

theorem assignsTo_optionalAssignment {v : Option α} (h : ∀ a ∈ v, (f a).IsWritable) :
    AssignsTo [key] (optionalAssignment key f v) := by
  cases v with
  | none => exact ⟨List.nil_sublist _, fun a ha => absurd ha List.not_mem_nil⟩
  | some a => exact ⟨List.Sublist.refl _, List.forall_mem_singleton.2 (h a rfl)⟩

theorem assignsTo_listAssignment (key : String) (l : List String) :
    AssignsTo [key] (listAssignment key l) := by
  rw [listAssignment_eq]
  exact assignsTo_optionalAssignment fun _ _ => trivial

namespace AssignsTo

variable {keys more : List String} {l r : List (String × Plain)}

theorem append (hl : AssignsTo keys l) (hr : AssignsTo more r) :
    AssignsTo (keys ++ more) (l ++ r) where
  sublist := by
    rw [List.map_append]
    exact hl.sublist.append hr.sublist
  values := List.forall_mem_append.2 ⟨hl.values, hr.values⟩

theorem isWritable {name : String} (h : AssignsTo keys l) (hname : IsBare name)
    (hbare : ∀ k ∈ keys, IsBare k) (hnodup : keys.Nodup) :
    Section.IsWritable ⟨name, l⟩ where
  name := hname
  keys a ha := hbare a.1 (h.sublist.subset (List.mem_map_of_mem ha))
  values := h.values
  distinct := h.sublist.nodup hnodup

end AssignsTo

namespace Settings

theorem isWritable_of_mem_sections {s : Settings} (h : ∀ n ∈ s.parser.maxFileSize, n < 2 ^ 63) :
    ∀ t ∈ s.sections, t.IsWritable := by
  have hsize : ∀ n ∈ s.parser.maxFileSize, (Plain.integer (n : Nat)).IsWritable := by
    intro n hn
    have hlt := h n hn
    exact if_pos ⟨by omega, by omega⟩
  have hflag (key : String) (b : Option Bool) :
      AssignsTo [key] (optionalAssignment key .boolean b) :=
    assignsTo_optionalAssignment fun _ _ => trivial
  have hparser := (assignsTo_optionalAssignment hsize).isWritable
    (show IsBare "parser" by decide)
    (show ∀ k ∈ ["max_file_size"], IsBare k by decide) (by decide)
  have hregistry := (((assignsTo_listAssignment "roots" s.registry.roots).append
    (assignsTo_listAssignment "extra_ignore" s.registry.extraIgnore)).append
    (hflag "follow_symlinks" s.registry.followSymlinks)).isWritable
      (show IsBare "registry" by decide) (by decide) (by decide)
  have hexpansion := ((hflag "enabled" s.expansion.enabled).append
    (assignsTo_listAssignment "concern_markers" s.expansion.concernMarkers)).isWritable
      (show IsBare "expansion" by decide) (by decide) (by decide)
  exact List.forall_mem_cons.2 ⟨hparser, List.forall_mem_cons.2 ⟨hregistry,
    List.forall_mem_singleton.2 hexpansion⟩⟩

theorem ofToml_writeSections {s : Settings} (h : ∀ n ∈ s.parser.maxFileSize, n < 2 ^ 63) :
    ofToml (writeSections s.sections) = .ok s := by
  have hnames : (s.sections.map Section.name).Nodup := by
    show ["parser", "registry", "expansion"].Nodup
    decide
  rw [ofToml, document?_writeSections (isWritable_of_mem_sections h) hnames, Option.bind_some,
    ofEntries?_sections]

theorem toToml_cases (s : Settings) :
    (∃ n, s.parser.maxFileSize = some n ∧ 2 ^ 63 ≤ n) ∧ s.toToml = .error .notWritable ∨
      (∀ n ∈ s.parser.maxFileSize, n < 2 ^ 63) ∧ s.toToml = .ok (writeSections s.sections) := by
  rw [toToml]
  cases s.parser.maxFileSize with
  | none => exact .inr ⟨fun n hn => absurd hn (Option.not_mem_none n), rfl⟩
  | some n =>
    by_cases hn : 2 ^ 63 ≤ n
    · exact .inl ⟨⟨n, rfl, hn⟩, if_pos (decide_eq_true hn)⟩
    · refine .inr ⟨fun m hm => ?_, if_neg (by simpa using hn)⟩
      cases hm
      exact Nat.lt_of_not_le hn

end Settings

/-- Settings that can be written are read back from their text as they were, whatever is set and
whatever characters its strings have, and only a size that is too large for an integer with sign
keeps settings from being written. -/
theorem settings_survive_toml (s : Settings) :
    (∀ text, s.toToml = .ok text → Settings.ofToml text = .ok s) ∧
    ∀ failure, s.toToml = .error failure ↔
      failure = .notWritable ∧ ∃ n, s.parser.maxFileSize = some n ∧ 2 ^ 63 ≤ n := by
  rcases s.toToml_cases with ⟨hlarge, he⟩ | ⟨hsmall, he⟩ <;> rw [he]
  · refine ⟨fun text htext => (nomatch htext), fun failure => ?_⟩
    rw [Except.error.injEq, eq_comm]
    exact (and_iff_left hlarge).symm
  · refine ⟨fun text htext => ?_, fun failure => ⟨fun he => (nomatch he), ?_⟩⟩
    · cases htext
      exact Settings.ofToml_writeSections hsmall
    · rintro ⟨-, n, hn, hle⟩
      exact absurd (hsmall n hn) (Nat.not_lt.2 hle)

/-! ## Settings with quotes, backslashes, control characters and line ends -/

def oddSettings : Settings where
  parser := ⟨some 0x7fffffffffffffff⟩
  registry := ⟨["", "it's a \"root\"", "\x07\\ß"], ["two\nlines\"\"\"", "'''\n\\"], none⟩
  expansion := ⟨some false, []⟩

def oddText : String :=
  "[parser]\nmax_file_size = 9223372036854775807\n\n" ++
    "[registry]\nroots = [\"\", \"\"\"it's a \"root\"\"\"\", \"\\u0007\\\\ß\"]\n" ++
    "extra_ignore = ['''\ntwo\nlines\"\"\"''', \"\"\"\n'''\n\\\\\"\"\"]\n\n" ++
    "[expansion]\nenabled = false\n"

theorem settings_survive_toml_odd :
    oddSettings.toToml = .ok oddText ∧ Settings.ofToml oddText = .ok oddSettings ∧
    Settings.toToml { parser := ⟨some 0x8000000000000000⟩ } = .error .notWritable := by
  have htext : writeSections oddSettings.sections = oddText := by decide +kernel
  have hwritten : oddSettings.toToml = .ok oddText := htext ▸ rfl
  exact ⟨hwritten, (settings_survive_toml oddSettings).1 oddText hwritten,
    ((settings_survive_toml _).2 .notWritable).2 ⟨rfl, _, rfl, Nat.le_refl _⟩⟩

end ModelSurvey
