import Mathlib.Data.List.Induction
import ModelSurvey.Proofs.Registry.FirstDefinition
import ModelSurvey.Proofs.Registry.Lookup

/-! A registry after any additions. Several spellings of a name, with any number of `::` in front,
stand for one key. Under each key is what was added last in one of its spellings, under the bare
name. So a rooted name is never found, additions under different keys can change places, and the
entries are in strict order of their names. -/
namespace ModelSurvey
set_option autoImplicit false

/-! ## Spellings of a key -/

namespace Name

/-- `name` is `key` behind any number of marks, and `key` itself has none in front. -/
inductive Spells : String → String → Prop where
  | bare {key : String} (h : ¬Rooted key) : Spells key key
  | marked {name key : String} (h : Spells name key) : Spells (mark ++ name) key

theorem Spells.not_rooted {name key : String} (h : Spells name key) : ¬Rooted key := by
  induction h with
  | bare h => exact h
  | marked _ ih => exact ih

theorem unroot_of_not_rooted {name : String} (h : ¬Rooted name) : unroot name = name := by
  have hnone := afterMark?_eq_none_iff.2 h
  rw [← String.toList_inj, unroot, String.toList_ofList]
  unfold dropMarks
  split
  · rename_i rest hchars
    rw [afterMark?, hchars] at hnone
    cases hnone
  · rfl

theorem spells_ofList (cs : List Char) :
    Spells (String.ofList cs) (String.ofList (dropMarks cs)) := by
  fun_induction dropMarks cs with
  | case1 rest ih =>
    have hchars : String.ofList (':' :: ':' :: rest) = mark ++ String.ofList rest := by
      rw [← String.toList_inj, String.toList_append, String.toList_ofList, String.toList_ofList]
      rfl
    rw [hchars]
    exact .marked ih
  | case2 cs hchars =>
    refine .bare ?_
    rw [← afterMark?_eq_none_iff, afterMark?, String.toList_ofList]
    split
    · rename_i rest heq
      exact absurd rfl (hchars _)
    · rfl

/-- Every name spells exactly one key. -/
theorem spells_iff {name key : String} : Spells name key ↔ unroot name = key := by
  constructor
  · intro h
    induction h with
    | bare h => exact unroot_of_not_rooted h
    | marked _ ih => rw [unroot_mark_append, ih]
  · rintro rfl
    have h := spells_ofList name.toList
    rwa [String.ofList_toList] at h

theorem not_rooted_unroot (name : String) : ¬Rooted (unroot name) :=
  (spells_iff.2 rfl : Spells name (unroot name)).not_rooted

end Name

namespace Registry

/-! ## Additions -/

inductive Addition where
  | entry (e : Entry)
  | moduleNamed (name : String) (source : Option Path) (concern : Bool)
  | classNamed (name : String) (source : Option Path)

namespace Addition

/-- What is added, under the name as it was written. -/
def written : Addition → Entry
  | entry e => e
  | moduleNamed name source concern => ⟨name, .moduleBody, source, concern⟩
  | classNamed name source => ⟨name, .classBody, source, false⟩

def applyTo (r : Registry) : Addition → Registry
  | entry e => r.define e
  | moduleNamed name source concern => r.defineModule name source concern
  | classNamed name source => r.defineClass name source

/-- The name that an addition is filed under. -/
def key (a : Addition) : String := Name.unroot a.written.name

theorem applyTo_eq (r : Registry) (a : Addition) : a.applyTo r = r.define a.written := by
  cases a <;> rfl

end Addition

/-- A new registry after some additions, in order. -/
def ofAdditions (l : List Addition) : Registry := l.foldl Addition.applyTo ∅

/-- Of the additions, `a` is the last one in a spelling of `name`. -/
def LastAddition (l : List Addition) (name : String) (a : Addition) : Prop :=
  ∃ before after, l = before ++ a :: after ∧ Name.Spells a.written.name name ∧
    ∀ b ∈ after, ¬Name.Spells b.written.name name

variable {l : List Addition} {a b : Addition} {name : String} {e : Entry} {r : Registry}

theorem ofAdditions_append (l m : List Addition) :
    ofAdditions (l ++ m) = m.foldl Addition.applyTo (ofAdditions l) := by
  rw [ofAdditions, List.foldl_append]
  rfl

/-! ## One addition -/

theorem get?_applyTo (r : Registry) (a : Addition) (name : String) :
    (a.applyTo r).get? name =
      if a.key = name then some { a.written with name := name } else r.get? name := by
  rw [Addition.applyTo_eq]
  by_cases h : a.key = name
  · rw [if_pos h, ← h]
    exact get?_define_self r a.written
  · rw [if_neg h]
    exact get?_define_of_ne r a.written (Ne.symm h)

/-- Additions under different keys can change places. -/
theorem applyTo_comm (r : Registry) (h : a.key ≠ b.key) :
    b.applyTo (a.applyTo r) = a.applyTo (b.applyTo r) := by
  refine ext_get? fun name => ?_
  rw [get?_applyTo, get?_applyTo, get?_applyTo, get?_applyTo]
  by_cases ha : a.key = name
  · rw [if_pos ha, if_neg (ha ▸ Ne.symm h), if_pos ha]
  · rw [if_neg ha, if_neg ha]

/-! ## Any additions -/

/-- Each entry goes by its key, which has no mark in front. -/
def Filed (r : Registry) : Prop := ∀ p ∈ r.known.toList, p.2.name = p.1 ∧ ¬Name.Rooted p.1

theorem Filed.applyTo (h : Filed r) (a : Addition) : Filed (a.applyTo r) := by
  rintro ⟨name, e⟩ hp
  have hget : (a.applyTo r).get? name = some e := NameMap.get?_eq_some_iff.2 hp
  rw [get?_applyTo] at hget
  split at hget
  · rename_i hkey
    obtain rfl := Option.some.inj hget
    exact ⟨rfl, hkey ▸ Name.not_rooted_unroot _⟩
  · exact h (name, e) (NameMap.get?_eq_some_iff.1 hget)

theorem filed_ofAdditions (l : List Addition) : Filed (ofAdditions l) := by
  induction l using List.reverseRecOn with
  | nil => exact fun p hp => absurd hp List.not_mem_nil
  | append_singleton l a ih =>
    rw [ofAdditions_append]
    exact ih.applyTo a

theorem get?_ofAdditions (l : List Addition) (name : String) :
    (ofAdditions l).get? name =
      (l.reverse.find? fun a => a.key == name).map fun a => { a.written with name := name } := by
  induction l using List.reverseRecOn with
  | nil => rfl
  | append_singleton l a ih =>
    rw [ofAdditions_append, List.foldl_cons, List.foldl_nil, get?_applyTo, ih,
      List.reverse_append, List.reverse_singleton, List.singleton_append, List.find?_cons]
    by_cases h : a.key = name
    · rw [if_pos h, beq_iff_eq.2 h]
      rfl
    · rw [if_neg h, beq_eq_false_iff_ne.2 h]

theorem find?_reverse_eq_some_iff :
    (l.reverse.find? fun a => a.key == name) = some a ↔ LastAddition l name a := by
  rw [List.find?_eq_some_iff_append, beq_iff_eq, LastAddition]
  simp only [Name.spells_iff, List.reverse_eq_iff, List.reverse_append, List.reverse_cons,
    List.append_assoc, List.singleton_append]
  constructor
  · rintro ⟨hkey, later, earlier, rfl, hlater⟩
    refine ⟨earlier.reverse, later.reverse, rfl, hkey, fun b hb => ?_⟩
    simpa [Addition.key] using hlater b (List.mem_reverse.1 hb)
  · rintro ⟨before, after, rfl, hkey, hafter⟩
    refine ⟨hkey, after.reverse, before.reverse, by simp, fun b hb => ?_⟩
    simpa [Addition.key] using hafter b (List.mem_reverse.1 hb)

theorem contains_ofAdditions :
    (ofAdditions l).contains name = true ↔ ∃ a ∈ l, Name.Spells a.written.name name := by
  have hcontains : (ofAdditions l).contains name = ((ofAdditions l).get? name).isSome := rfl
  rw [hcontains, get?_ofAdditions, Option.isSome_map, List.find?_isSome]
  simp only [List.mem_reverse, beq_iff_eq, Name.spells_iff, Addition.key]

theorem get?_ofAdditions_eq_some_iff : (ofAdditions l).get? name = some e ↔
    ∃ a, LastAddition l name a ∧ { a.written with name := name } = e := by
  rw [get?_ofAdditions, Option.map_eq_some_iff]
  simp only [find?_reverse_eq_some_iff]

theorem not_rooted_of_contains (h : (ofAdditions l).contains name = true) :
    ¬Name.Rooted name := by
  obtain ⟨a, -, ha⟩ := contains_ofAdditions.1 h
  exact ha.not_rooted

/-- Neighbours under different keys can change places anywhere. -/
theorem ofAdditions_swap (before after : List Addition) (h : a.key ≠ b.key) :
    ofAdditions (before ++ a :: b :: after) = ofAdditions (before ++ b :: a :: after) := by
  rw [ofAdditions_append, ofAdditions_append, List.foldl_cons, List.foldl_cons, List.foldl_cons,
    List.foldl_cons, applyTo_comm _ h]

/-! ## Entries -/

/-- The entries of a filed registry go by the keys, one by one. -/
theorem Filed.map_entries (h : Filed r) : r.entries.map Entry.name = r.names := by
  rw [entries, NameMap.values, List.map_map]
  exact List.map_congr_left fun p hp => (h p hp).1

theorem Filed.pairwise_entries (h : Filed r) : r.entries.Pairwise fun d e => d.name < e.name := by
  rw [← List.pairwise_map, h.map_entries]
  exact NameMap.keys_pairwise r.known

theorem Filed.mem_entries_iff (h : Filed r) : e ∈ r.entries ↔ r.get? e.name = some e := by
  rw [get?, NameMap.get?_eq_some_iff, entries, NameMap.values, List.mem_map]
  constructor
  · rintro ⟨p, hp, rfl⟩
    rw [(h p hp).1]
    exact hp
  · exact fun hp => ⟨_, hp, rfl⟩

/-- Whatever is added to a new registry, each entry goes by its key, under each key stands what was
added last in one of its spellings, and the entries are listed once each in order of their names. -/
theorem registry_holds_last_additions (l : List Addition) :
    let r := ofAdditions l
    (∀ key e, (key, e) ∈ r.known.toList → e.name = key ∧ ¬Name.Rooted key) ∧
    (∀ name e, r.get? name = some e ↔
      ∃ a, LastAddition l name a ∧ { a.written with name := name } = e) ∧
    (∀ name, r.contains name = true ↔ ∃ a ∈ l, Name.Spells a.written.name name) ∧
    (∀ name, Name.Rooted name → r.get? name = none) ∧
    (∀ name e a, r.get? name = some e → LastAddition l name a →
      (e.isConcern = true ↔ a.written.kind = .moduleBody ∧ a.written.concern = true)) ∧
    (∀ before a b after, a.key ≠ b.key →
      ofAdditions (before ++ a :: b :: after) = ofAdditions (before ++ b :: a :: after)) ∧
    r.entries.Pairwise (fun d e => d.name < e.name) ∧
    r.entries.length = r.size ∧
    (∀ e, e ∈ r.entries ↔ r.get? e.name = some e) ∧
    ∀ name, name ∈ r.entries.map Entry.name ↔ ∃ a ∈ l, Name.Spells a.written.name name := by
  intro r
  have hfiled : Filed r := filed_ofAdditions l
  refine ⟨fun key e => hfiled (key, e), fun name e => get?_ofAdditions_eq_some_iff,
    fun name => contains_ofAdditions, fun name hrooted => ?rooted, fun name e a he ha => ?concern,
    fun before a b after => ofAdditions_swap before after, hfiled.pairwise_entries,
    List.length_map .., fun e => hfiled.mem_entries_iff, fun name => ?names⟩
  case rooted =>
    by_contra hfound
    exact not_rooted_of_contains (Option.isSome_iff_ne_none.2 hfound) hrooted
  case concern =>
    rw [get?_ofAdditions, find?_reverse_eq_some_iff.2 ha] at he
    obtain rfl := Option.some.inj he
    simp [Entry.isConcern]
  case names =>
    rw [hfiled.map_entries, mem_names_iff, ← contains_ofAdditions, ← Option.isSome_iff_exists]
    rfl

example :
    (ofAdditions [.classNamed "::Tag" none, .moduleNamed "Shop" none true,
      .moduleNamed "::::Tag" none true]).entries =
      [⟨"Shop", .moduleBody, none, true⟩, ⟨"Tag", .moduleBody, none, true⟩] := by decide +kernel

end Registry

end ModelSurvey
