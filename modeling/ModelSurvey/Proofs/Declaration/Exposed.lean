import Mathlib.Data.List.Basic
import ModelSurvey.Proofs.Declaration.Occurrence
import ModelSurvey.Proofs.Declaration.Recorder

/-! Which nodes a survey records. An occurrence is exposed if no ancestor is a call and it lies in
no name of a class or module. The findings of some statements are the exposed calls, classes and
modules in pre-order, each under the segments of all names above it. -/
namespace ModelSurvey
set_option autoImplicit false
open Syntax

/-! ## Exposed occurrences -/

namespace Step

def isOpen (a : Step) : Bool := a.node.call?.isNone && a.role == .content

/-- The segments that a step adds to the scope. -/
def segments (a : Step) : List String :=
  match a.node with
  | .space s => nameSegments s.name
  | _ => []

end Step

namespace Occurrence

def isExposed (o : Occurrence) : Bool := o.above.all Step.isOpen

def scope (o : Occurrence) : List String := o.above.flatMap Step.segments

def call? (space : String) (o : Occurrence) : Option Declaration :=
  if o.isExposed && Name.join o.scope == space then o.node.call? else none

def definition? (o : Occurrence) : Option Definition :=
  match o.node with
  | .space s =>
    if o.isExposed then some ⟨Name.join (o.scope ++ nameSegments s.name), s.kind, s.line⟩ else none
  | _ => none

end Occurrence

/-! ## Findings, part by part -/

/-- What a node is by itself in a walk, without what is inside it. -/
def ownFinding? (scope : List String) : Node → Option Finding
  | .call c => some (.declared scope c)
  | .space s => some (.defined ⟨Name.join (scope ++ nameSegments s.name), s.kind, s.line⟩)
  | _ => none

/-- What a walk finds in one part of a node. -/
def partFindings (scope : List String) (n : Node) (p : Role × Node) : List Finding :=
  let a : Step := ⟨n, p.1⟩
  if a.isOpen then findings (scope ++ a.segments) p.2 else []

theorem allFindings_eq_flatMap (scope : List String) (l : List Node) :
    allFindings scope l = l.flatMap (findings scope) := by
  induction l with
  | nil => rw [allFindings, List.flatMap_nil]
  | cons n l ih => rw [allFindings, List.flatMap_cons, ih]

theorem elementFindings_eq (scope : List String) (l : List HashElement) :
    elementFindings scope l = allFindings scope (l.flatMap HashElement.nodes) := by
  induction l with
  | nil => rw [elementFindings, List.flatMap_nil, allFindings]
  | cons e l ih =>
    rw [List.flatMap_cons, allFindings_append, ← ih]
    cases e <;> simp [elementFindings, HashElement.nodes, allFindings]

theorem optionalFindings_eq (scope : List String) (o : Option Node) :
    optionalFindings scope o = allFindings scope o.toList := by
  cases o <;> simp [optionalFindings, allFindings]

theorem blockFindings_eq (scope : List String) (b : Block) :
    blockFindings scope b = allFindings scope b.nodes := by
  cases b
  rw [blockFindings]
  rfl

theorem flatMap_partFindings_contents (scope : List String) {n : Node} (h : n.call? = none)
    (l : List Node) :
    (Role.contents l).flatMap (partFindings scope n) =
      allFindings (scope ++ (⟨n, .content⟩ : Step).segments) l := by
  have hopen : (⟨n, .content⟩ : Step).isOpen = true := by
    rw [Step.isOpen, h]
    rfl
  have hpart : ∀ m, partFindings scope n (.content, m) =
      findings (scope ++ (⟨n, .content⟩ : Step).segments) m := fun m => if_pos hopen
  rw [allFindings_eq_flatMap, Role.contents, List.flatMap_map]
  simp only [hpart]

theorem findings_eq (scope : List String) (n : Node) :
    findings scope n = (ownFinding? scope n).toList ++ n.parts.flatMap (partFindings scope n) := by
  cases n with
  | call c =>
    have hclosed : ∀ p, partFindings scope (.call c) p = [] := fun p => rfl
    rw [findings, List.flatMap_congr (fun p _ => hclosed p)]
    simp [ownFinding?]
  | space s =>
    obtain ⟨kind, name, superclass, body, line⟩ := s
    have hname : partFindings scope (.space ⟨kind, name, superclass, body, line⟩) (.name, name) =
        [] := rfl
    rw [Node.parts, List.flatMap_cons, hname, flatMap_partFindings_contents scope rfl,
      allFindings_append, ← optionalFindings_eq, findings, spaceFindings]
    rfl
  | lambda b =>
    rw [Node.parts, flatMap_partFindings_contents scope rfl, ← blockFindings_eq, findings]
    simp [ownFinding?, Step.segments]
  | array elements =>
    rw [Node.parts, flatMap_partFindings_contents scope rfl, findings]
    simp [ownFinding?, Step.segments]
  | other kind children =>
    rw [Node.parts, flatMap_partFindings_contents scope rfl, findings]
    simp [ownFinding?, Step.segments]
  | hash elements =>
    rw [Node.parts, flatMap_partFindings_contents scope rfl, ← elementFindings_eq, findings]
    simp [ownFinding?, Step.segments]
  | keywordHash elements =>
    rw [Node.parts, flatMap_partFindings_contents scope rfl, ← elementFindings_eq, findings]
    simp [ownFinding?, Step.segments]
  | constantPath outer name =>
    rw [Node.parts, flatMap_partFindings_contents scope rfl, ← optionalFindings_eq, findings]
    simp [ownFinding?, Step.segments]
  | _ => simp [findings, ownFinding?, Node.parts]

/-! ## Findings are exposed occurrences -/

namespace Occurrence

def finding? (o : Occurrence) : Option Finding :=
  if o.isExposed then ownFinding? o.scope o.node else none

theorem isExposed_part (o : Occurrence) (i : Nat) (p : Role × Node) :
    (o.part i p).isExposed = (o.isExposed && (⟨o.node, p.1⟩ : Step).isOpen) := by
  simp [isExposed, part]

theorem scope_part (o : Occurrence) (i : Nat) (p : Role × Node) :
    (o.part i p).scope = o.scope ++ (⟨o.node, p.1⟩ : Step).segments := by
  simp [scope, part]

theorem isExposed_of_mem_below {o q : Occurrence} (h : q ∈ o.below) (hq : q.isExposed = true) :
    o.isExposed = true := by
  obtain ⟨rest, hrest⟩ := above_isPrefix h
  rw [isExposed, ← hrest, List.all_append, Bool.and_eq_true] at hq
  exact hq.1

theorem filterMap_finding?_of_not {o : Occurrence} (h : o.isExposed = false) :
    o.below.filterMap finding? = [] := by
  rw [List.filterMap_eq_nil_iff]
  intro q hq
  have hclosed : ¬q.isExposed = true := fun hopen => by
    rw [isExposed_of_mem_below hq hopen] at h
    cases h
  rw [finding?, if_neg hclosed]

theorem filterMap_finding?_below (o : Occurrence) (h : o.isExposed = true) :
    o.below.filterMap finding? = findings o.scope o.node := by
  induction o using induction with
  | h o ih =>
    have hparts : ∀ e ∈ o.node.parts.zipIdx, (o.part e.2 e.1).below.filterMap finding? =
        partFindings o.scope o.node e.1 := by
      intro e he
      cases hopen : (⟨o.node, e.1.1⟩ : Step).isOpen with
      | false =>
        have hnone : partFindings o.scope o.node e.1 = [] := if_neg (by simp [hopen])
        rw [hnone]
        exact filterMap_finding?_of_not (by rw [isExposed_part, hopen, Bool.and_false])
      | true =>
        have hsome : partFindings o.scope o.node e.1 =
            findings (o.part e.2 e.1).scope e.1.2 := by
          rw [scope_part]
          exact if_pos hopen
        rw [hsome]
        refine ih e.2 e.1 (List.mk_mem_zipIdx_iff_getElem?.1 he) ?_
        rw [isExposed_part, h, hopen, Bool.and_true]
    have hflat : o.node.parts.zipIdx.flatMap (fun e => partFindings o.scope o.node e.1) =
        o.node.parts.flatMap (partFindings o.scope o.node) := by
      rw [← List.flatMap_map, List.zipIdx_map_fst]
    rw [below_eq, findings_eq, List.filterMap_cons, List.filterMap_flatMap,
      List.flatMap_congr hparts, hflat, finding?, if_pos h]
    cases ownFinding? o.scope o.node <;> rfl

end Occurrence

theorem filterMap_finding?_occurrences (statements : List Node) :
    (occurrences statements).filterMap Occurrence.finding? = allFindings [] statements := by
  have hbelow : ∀ e : Node × Nat, (Occurrence.below ⟨[e.2], [], e.1⟩).filterMap
      Occurrence.finding? = findings [] e.1 := fun e =>
    Occurrence.filterMap_finding?_below ⟨[e.2], [], e.1⟩ rfl
  rw [occurrences, List.filterMap_flatMap, allFindings_eq_flatMap,
    List.flatMap_congr (fun e _ => hbelow e), ← List.flatMap_map, List.zipIdx_map_fst]

/-! ## Surveys -/

theorem bind_definition? (o : Occurrence) :
    o.finding?.bind Finding.definition? = o.definition? := by
  obtain ⟨place, above, n⟩ := o
  cases hopen : (⟨place, above, n⟩ : Occurrence).isExposed <;> cases n <;>
    simp [Occurrence.finding?, Occurrence.definition?, hopen, ownFinding?, Finding.definition?]

theorem bind_declaration? (o : Occurrence) (space : String) :
    ((o.finding?.bind Finding.declaration?).filter fun p => p.1 == space).map Prod.snd =
      o.call? space := by
  obtain ⟨place, above, n⟩ := o
  cases hopen : (⟨place, above, n⟩ : Occurrence).isExposed <;> cases n <;>
    simp [Occurrence.finding?, Occurrence.call?, hopen, ownFinding?, Finding.declaration?,
      Node.call?, Option.filter]

theorem definitions_ofStatements (statements : List Node) :
    (Survey.ofStatements statements).definitions =
      (occurrences statements).filterMap Occurrence.definition? := by
  have h : (Survey.ofStatements statements).definitions =
      (allFindings [] statements).filterMap Finding.definition? := rfl
  rw [h, ← filterMap_finding?_occurrences, List.filterMap_filterMap]
  exact List.filterMap_congr fun o _ => bind_definition? o

theorem get?_ofStatements (statements : List Node) (space : String) :
    (Survey.ofStatements statements).table.get? space =
      if (occurrences statements).filterMap (Occurrence.call? space) = [] then none
      else some ((occurrences statements).filterMap (Occurrence.call? space)) := by
  have htable : (Survey.ofStatements statements).table =
      .ofPairs ((allFindings [] statements).filterMap Finding.declaration?) := rfl
  have hcalls : (((allFindings [] statements).filterMap Finding.declaration?).filter
      fun p => p.1 == space).map Prod.snd =
        (occurrences statements).filterMap (Occurrence.call? space) := by
    rw [← filterMap_finding?_occurrences, List.filterMap_filterMap, List.filter_filterMap,
      List.map_filterMap]
    exact List.filterMap_congr fun o _ => bind_declaration? o space
  rw [htable, Table.get?_ofPairs, ← hcalls]
  simp only [List.map_eq_nil_iff]

/-- A survey has the exposed calls, classes and modules, each once and in pre-order. A walk with a
stack finds the same, gives the stack back after every visit, and may be fed in batches. -/
theorem survey_records_exposed :
    (∀ statements,
      let found := occurrences statements
      let survey := Survey.ofStatements statements
      found.Pairwise (fun o q => o.place < q.place) ∧
      (∀ o, o ∈ found ↔ Occurs statements o) ∧
      (∀ space, survey.table.get? space =
        if found.filterMap (Occurrence.call? space) = [] then none
        else some (found.filterMap (Occurrence.call? space))) ∧
      survey.definitions = found.filterMap Occurrence.definition?) ∧
    (∀ (r : Recorder) (n : Node), (r.visit n).scope = r.scope) ∧
    ∀ batches : List (List Node),
      (batches.foldl Recorder.visitAll .start).survey = Survey.ofStatements batches.flatten ∧
      Survey.ofBatches batches = Survey.ofStatements batches.flatten := by
  refine ⟨fun statements => ⟨pairwise_occurrences statements, fun o => mem_occurrences_iff,
    get?_ofStatements statements, definitions_ofStatements statements⟩, Recorder.scope_visit, ?_⟩
  intro batches
  rw [Recorder.foldl_visitAll]
  exact ⟨Recorder.survey_visitAll _, Survey.ofBatches_eq batches⟩

end ModelSurvey
