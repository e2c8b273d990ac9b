import Mathlib.Data.List.Infix
import ModelSurvey.Expansion.Mixin
import ModelSurvey.Proofs.Declaration.PlainNames
import ModelSurvey.Proofs.Registry.Lookup

/-! Scopes read back from keys. A walk over statements joins its stack of segments to the key that it
records something under, and an include cuts the key again to find its context. As long as no name of
a class or module has a piece with a colon in it, the stack holds segments that cutting gives back at
every moment of the walk. So the keys tell stacks apart, and an include is looked up from the scope
that it was written in. -/
namespace ModelSurvey
set_option autoImplicit false
open Syntax

variable {statements : List Node} {r : Recorder} {o : Occurrence}

namespace Role

theorem map_contents (l : List Node) : (contents l).map Prod.snd = l := by
  rw [contents, List.map_map]
  exact List.map_id l

theorem eq_content_of_mem {l : List Node} {p : Role × Node} (h : p ∈ contents l) :
    p.1 = .content := by
  obtain ⟨n, -, rfl⟩ := List.mem_map.1 h
  rfl

end Role

/-! ## A visit, part by part -/

namespace Recorder

/-- The state in which a walk goes through what a class or module holds. -/
def inside (r : Recorder) (s : Namespace) : Recorder :=
  (r.push (nameSegments s.name)).define s.kind s.line

@[simp] theorem scope_inside (r : Recorder) (s : Namespace) :
    (r.inside s).scope = r.scope ++ nameSegments s.name := rfl

@[simp] theorem scope_visitAll (r : Recorder) (l : List Node) : (r.visitAll l).scope = r.scope := by
  rw [visitAll_eq, scope_record]

theorem visit_parts (r : Recorder) {n : Node} (hcall : n.call? = none)
    (hspace : ∀ s, n ≠ .space s) : r.visit n = r.visitAll (n.parts.map Prod.snd) := by
  have hfindings : findings r.scope n = allFindings r.scope (n.parts.map Prod.snd) := by
    cases n with
    | call c => cases hcall
    | space s => exact absurd rfl (hspace s)
    | array elements => rw [findings, Node.parts, Role.map_contents]
    | other kind children => rw [findings, Node.parts, Role.map_contents]
    | lambda b => rw [findings, Node.parts, Role.map_contents, blockFindings_eq]
    | hash elements => rw [findings, Node.parts, Role.map_contents, elementFindings_eq]
    | keywordHash elements => rw [findings, Node.parts, Role.map_contents, elementFindings_eq]
    | constantPath outer name => rw [findings, Node.parts, Role.map_contents, optionalFindings_eq]
    | _ => simp [findings, Node.parts, allFindings]
  rw [visit_eq, visitAll_eq, hfindings]

theorem visit_space (r : Recorder) (s : Namespace) :
    r.visit (.space s) =
      ((r.inside s).visitAll (s.superclass.toList ++ s.body)).cut r.scope.length := by
  obtain ⟨kind, name, superclass, body, line⟩ := s
  rw [visit, visitSpace, visitAll_append]
  cases superclass with
  | none => rfl
  | some n => rfl

/-- A visit of some nodes is a visit of one of them after those before it, and then some more. -/
theorem exists_visitAll_eq (r : Recorder) {l : List Node} {i : Nat} {n : Node}
    (h : l[i]? = some n) :
    ∃ later, r.visitAll l = ((r.visitAll (l.take i)).visit n).record later := by
  obtain ⟨hi, hn⟩ := List.getElem?_eq_some_iff.1 h
  have hsplit : l = l.take i ++ n :: l.drop (i + 1) := by
    rw [← hn, ← List.drop_eq_getElem_cons hi, List.take_append_drop]
  refine ⟨allFindings ((r.visitAll (l.take i)).visit n).scope (l.drop (i + 1)), ?_⟩
  rw [← visitAll_eq, ← visitAll, ← visitAll_append, ← hsplit]

/-! ## The states of a walk -/

/-- A walk over the statements comes to an occurrence in a state: what stands before it has been
visited, and of the classes and modules around it each has been entered. -/
inductive Meets (statements : List Node) : Recorder → Occurrence → Prop where
  | statement {i : Nat} {n : Node} (h : statements[i]? = some n) :
    Meets statements (start.visitAll (statements.take i)) ⟨[i], [], n⟩
  | part {r : Recorder} {o : Occurrence} {i : Nat} {p : Role × Node} (ho : Meets statements r o)
    (hcall : o.node.call? = none) (hspace : ∀ s, o.node ≠ .space s)
    (h : o.node.parts[i]? = some p) :
    Meets statements (r.visitAll ((o.node.parts.map Prod.snd).take i)) (o.part i p)
  | held {r : Recorder} {o : Occurrence} {s : Namespace} {i : Nat} {p : Role × Node}
    (ho : Meets statements r o) (hs : o.node = .space s) (h : o.node.parts[i + 1]? = some p) :
    Meets statements ((r.inside s).visitAll ((s.superclass.toList ++ s.body).take i))
      (o.part (i + 1) p)

/-- From such a state the walk visits the node, and then only adds to what it has recorded. -/
theorem Meets.exists_survey_eq (h : Meets statements r o) :
    ∃ later, Survey.ofStatements statements = ((r.visit o.node).record later).survey := by
  induction h with
  | statement h =>
    obtain ⟨later, hlater⟩ := start.exists_visitAll_eq h
    exact ⟨later, by rw [← survey_visitAll, hlater]⟩
  | @part r o i p _ hcall hspace h ih =>
    obtain ⟨rest, hrest⟩ := ih
    have hp : (o.node.parts.map Prod.snd)[i]? = some p.2 := by rw [List.getElem?_map, h]; rfl
    obtain ⟨later, hlater⟩ := r.exists_visitAll_eq hp
    refine ⟨later ++ rest, ?_⟩
    rw [hrest, visit_parts r hcall hspace, hlater, record_append]
    rfl
  | @held r o s i p _ hs h ih =>
    obtain ⟨rest, hrest⟩ := ih
    have hp : (s.superclass.toList ++ s.body)[i]? = some p.2 := by
      rw [hs, Node.parts, List.getElem?_cons_succ] at h
      rw [← Role.map_contents (s.superclass.toList ++ s.body), List.getElem?_map, h]
      rfl
    obtain ⟨later, hlater⟩ := (r.inside s).exists_visitAll_eq hp
    refine ⟨later ++ rest, ?_⟩
    -- leaving the class or module gives back the stack and keeps what was recorded
    rw [hrest, hs, visit_space, hlater, record_append]
    rfl

end Recorder

theorem role_of_mem_parts {n : Node} (hspace : ∀ s, n ≠ .space s) {p : Role × Node}
    (h : p ∈ n.parts) : p.1 = .content := by
  cases n with
  | space s => exact absurd rfl (hspace s)
  | array | hash | keywordHash | constantPath | call | lambda | other => exact Role.eq_content_of_mem h
  | nil | bool | integer | string | symbol | constant | methodDef => cases h

/-! ## The walk comes to what is exposed -/

/-- What the walk comes to is exposed, and the stack is then the scope that it lies in. -/
theorem Recorder.Meets.exposed (h : Meets statements r o) :
    Occurs statements o ∧ o.isExposed = true ∧ r.scope = o.scope := by
  induction h with
  | statement h => exact ⟨.statement h, rfl, scope_visitAll _ _⟩
  | @part r o i p _ hcall hspace h ih =>
    obtain ⟨hoccurs, hexposed, hscope⟩ := ih
    have hrole := role_of_mem_parts hspace (List.mem_of_getElem? h)
    have hsegments : (⟨o.node, p.1⟩ : Step).segments = [] := by
      rw [Step.segments]
      split
      · rename_i s hs
        exact absurd hs (hspace s)
      · rfl
    refine ⟨hoccurs.part h, ?_, ?_⟩
    · rw [Occurrence.isExposed_part, hexposed, Step.isOpen, hcall, hrole]
      rfl
    · rw [Occurrence.scope_part, hsegments, List.append_nil, ← hscope, scope_visitAll]
  | @held r o s i p _ hs h ih =>
    obtain ⟨hoccurs, hexposed, hscope⟩ := ih
    have hrole : p.1 = .content := by
      rw [hs, Node.parts, List.getElem?_cons_succ] at h
      exact Role.eq_content_of_mem (List.mem_of_getElem? h)
    refine ⟨hoccurs.part h, ?_, ?_⟩
    · rw [Occurrence.isExposed_part, hexposed, Step.isOpen, hs, hrole]
      rfl
    · rw [Occurrence.scope_part, scope_visitAll, scope_inside, ← hscope, Step.segments]
      simp only [hs]

theorem Occurs.exists_meets (ho : Occurs statements o) (h : o.isExposed = true) :
    ∃ r, Recorder.Meets statements r o := by
  induction ho with
  | statement hn => exact ⟨_, .statement hn⟩
  | @part o i p _ hp ih =>
    rw [Occurrence.isExposed_part, Bool.and_eq_true, Step.isOpen, Bool.and_eq_true] at h
    obtain ⟨hexposed, hcall, hrole⟩ := h
    obtain ⟨r, hr⟩ := ih hexposed
    by_cases hspace : ∃ s, o.node = .space s
    · obtain ⟨s, hs⟩ := hspace
      cases i with
      | zero =>
        -- the first part of a class or module is its name, where the walk does not go
        rw [hs] at hp
        cases hp
        cases hrole
      | succ i => exact ⟨_, .held hr hs hp⟩
    · exact ⟨_, .part hr (Option.isNone_iff_eq_none.1 hcall) (not_exists.1 hspace) hp⟩

/-! ## Keys -/

/-- A walk over the statements holds the stack at a moment when it records something. -/
inductive Holds (statements : List Node) : List String → Prop where
  | declaring {r : Recorder} {o : Occurrence} {d : Declaration}
    (h : Recorder.Meets statements r o) (hd : o.node = .call d) : Holds statements r.scope
  | defining {r : Recorder} {o : Occurrence} {s : Namespace}
    (h : Recorder.Meets statements r o) (hs : o.node = .space s) :
    Holds statements (r.inside s).scope

theorem Holds.plain (h : CleanNames statements) {stack : List String}
    (hstack : Holds statements stack) : Name.Plain stack := by
  cases hstack with
  | declaring hmeets _ =>
    obtain ⟨hoccurs, -, hscope⟩ := hmeets.exposed
    exact hscope ▸ h.plain_scope hoccurs
  | @defining r o s hmeets hs =>
    obtain ⟨hoccurs, -, hscope⟩ := hmeets.exposed
    intro segment hsegment
    rcases List.mem_append.1 hsegment with hsegment | hsegment
    · exact h.plain_scope hoccurs segment (hscope ▸ hsegment)
    · exact plain_nameSegments (h o hoccurs s hs) segment hsegment

theorem mem_bucket_ofStatements {space : String} {d : Declaration} :
    d ∈ (Survey.ofStatements statements).table.bucket space ↔
      ∃ r o, Recorder.Meets statements r o ∧ o.node = .call d ∧ Name.join r.scope = space := by
  have hbucket : (Survey.ofStatements statements).table.bucket space =
      (occurrences statements).filterMap (Occurrence.call? space) := by
    rw [Table.bucket, get?_ofStatements]
    split
    · rename_i hnone
      exact hnone.symm
    · rfl
  rw [hbucket, List.mem_filterMap]
  constructor
  · rintro ⟨o, ho, hd⟩
    rw [Occurrence.call?] at hd
    split at hd
    · rename_i hopen
      obtain ⟨hexposed, hspace⟩ := Bool.and_eq_true_iff.1 hopen
      obtain ⟨r, hr⟩ := (mem_occurrences_iff.1 ho).exists_meets hexposed
      refine ⟨r, o, hr, Node.eq_call_of_call? hd, ?_⟩
      rw [hr.exposed.2.2]
      exact beq_iff_eq.1 hspace
    · cases hd
  · rintro ⟨r, o, hr, hd, rfl⟩
    obtain ⟨hoccurs, hexposed, hscope⟩ := hr.exposed
    refine ⟨o, mem_occurrences_iff.2 hoccurs, ?_⟩
    rw [Occurrence.call?, hexposed, hscope, beq_self_eq_true, hd]
    rfl

theorem mem_definitions_ofStatements {found : Definition} :
    found ∈ (Survey.ofStatements statements).definitions ↔
      ∃ r o s, Recorder.Meets statements r o ∧ o.node = .space s ∧
        found = ⟨Name.join (r.inside s).scope, s.kind, s.line⟩ := by
  rw [definitions_ofStatements, List.mem_filterMap]
  constructor
  · rintro ⟨o, ho, hfound⟩
    rw [Occurrence.definition?] at hfound
    split at hfound
    · rename_i s hs
      split at hfound
      · rename_i hexposed
        obtain ⟨r, hr⟩ := (mem_occurrences_iff.1 ho).exists_meets hexposed
        refine ⟨r, o, s, hr, hs, ?_⟩
        rw [Recorder.scope_inside, hr.exposed.2.2]
        exact (Option.some.inj hfound).symm
      · cases hfound
    · cases hfound
  · rintro ⟨r, o, s, hr, hs, rfl⟩
    obtain ⟨hoccurs, hexposed, hscope⟩ := hr.exposed
    refine ⟨o, mem_occurrences_iff.2 hoccurs, ?_⟩
    rw [Occurrence.definition?, hs, Recorder.scope_inside, hscope]
    exact if_pos hexposed

theorem Name.enclosing_eq (context : List String) : enclosing context = context.inits.reverse := by
  induction context with
  | nil => rfl
  | cons s r ih => rw [enclosing, ih, List.inits_cons, List.reverse_cons, List.map_reverse]

/-- What is recorded is recorded by a visit from a state of the walk, under the key of the stack that
the walk holds then. If no name of a class or module has a piece with a colon in it, cutting the key
gives the stack back, so different stacks have different keys; and an include that stands in a
namespace is looked up below each prefix of the scope that it lies in, the longest first. -/
theorem keys_recover_scopes (h : CleanNames statements) :
    (∀ r o, Recorder.Meets statements r o →
      ∃ later, Survey.ofStatements statements = ((r.visit o.node).record later).survey) ∧
    (∀ space d, d ∈ (Survey.ofStatements statements).table.bucket space ↔
      ∃ r o, Recorder.Meets statements r o ∧ o.node = .call d ∧ Name.join r.scope = space) ∧
    (∀ found, found ∈ (Survey.ofStatements statements).definitions ↔
      ∃ r o s, Recorder.Meets statements r o ∧ o.node = .space s ∧
        found = ⟨Name.join (r.inside s).scope, s.kind, s.line⟩) ∧
    (∀ stack, Holds statements stack → Name.segments (Name.join stack) = stack) ∧
    (∀ stack other, Holds statements stack → Holds statements other →
      Name.join stack = Name.join other → stack = other) ∧
    ∀ r o d, Recorder.Meets statements r o → o.node = .call d → ∀ name,
      (¬Name.Rooted name → Name.candidates name (Name.segments (Name.join r.scope)) =
        o.scope.inits.reverse.map fun outer => Name.join (outer ++ [name])) ∧
      ∀ (registry : Registry) (memory : Expansion.Memory registry),
        (memory.resolve (Name.join r.scope) name).1 = registry.resolve name o.scope := by
  have hback (stack : List String) (hstack : Holds statements stack) :
      Name.segments (Name.join stack) = stack := Name.segments_join (hstack.plain h)
  refine ⟨fun _ _ hr => hr.exists_survey_eq, fun _ _ => mem_bucket_ofStatements,
    fun _ => mem_definitions_ofStatements, hback, ?_, ?_⟩
  · intro stack other hstack hother hkey
    rw [← hback stack hstack, hkey, hback other hother]
  · intro r o d hr hd name
    have hscope : Name.segments (Name.join r.scope) = o.scope :=
      (hback r.scope (.declaring hr hd)).trans hr.exposed.2.2
    refine ⟨fun hname => ?_, fun registry memory => ?_⟩
    · rw [hscope, Name.candidates_of_not_rooted hname, Name.enclosing_eq]
    · rw [Expansion.Memory.resolve_fst, hscope]

-- Segments with a colon of their own can share a key with others.
example : Name.join ["a:", "b"] = Name.join ["a", ":b"] := by decide

/-! ## A shop with nested, compact, rooted and nameless bodies -/

def includeOf (name : String) (line : Nat) : Call := ⟨none, "include", [.constant name], none, line⟩

/-- A class named by a rooted compact name, with a module inside it that has a class inside whose
name is computed. -/
def shopStatements : List Node :=
  [.space ⟨.classBody, .constantPath (some (.constantPath none "Shop")) "Order", none,
    [.call (includeOf "Tracked" 2),
      .space ⟨.moduleBody, .constant "Audit", none,
        [.space ⟨.classBody, .call (.bare "singleton" 4), none,
          [.call (includeOf "Logged" 5)], 4⟩], 3⟩], 1⟩]

theorem keys_recover_scopes_shop :
    CleanNames shopStatements ∧
    ∃ r o, Recorder.Meets shopStatements r o ∧ o.node = .call (includeOf "Logged" 5) ∧
      r.scope = ["Shop", "Order", "Audit"] ∧
      Name.candidates "Logged" (Name.segments (Name.join r.scope)) =
        ["Shop::Order::Audit::Logged", "Shop::Order::Logged", "Shop::Logged", "Logged"] := by
  have hclean : CleanNames shopStatements := (plainNames_iff.2 (by decide +kernel)).clean
  obtain ⟨-, hbucket, -, hback, -, hinclude⟩ := keys_recover_scopes hclean
  have hmem : includeOf "Logged" 5 ∈
      (Survey.ofStatements shopStatements).table.bucket "Shop::Order::Audit" :=
    List.mem_singleton.2 rfl
  obtain ⟨r, o, hr, ho, hkey⟩ := (hbucket _ _).1 hmem
  have hscope : r.scope = ["Shop", "Order", "Audit"] := by
    rw [← hback r.scope (.declaring hr ho), hkey]
    decide +kernel
  refine ⟨hclean, r, o, hr, ho, hscope, ?_⟩
  rw [(hinclude r o _ hr ho "Logged").1 (Name.afterMark?_eq_none_iff.1 (by decide)),
    ← hr.exposed.2.2, hscope]
  decide +kernel

end ModelSurvey
