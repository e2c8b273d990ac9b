import ModelSurvey.Declaration.Collect

/-! The walk over statements as one pass that keeps its scope as a stack: entering a class or module
pushes the segments of its name, leaving it cuts the stack back to its former depth. From any state
the pass adds exactly the findings of the scope on the stack and gives the stack back, so statements
can be handed over in batches. -/
namespace ModelSurvey
set_option autoImplicit false
open Syntax

structure Recorder where
  scope : List String
  table : Table
  definitions : List Definition

namespace Recorder

def start : Recorder := ⟨[], ∅, []⟩

def survey (r : Recorder) : Survey := ⟨r.table, r.definitions⟩

def push (r : Recorder) (segments : List String) : Recorder :=
  { r with scope := r.scope ++ segments }

def cut (r : Recorder) (depth : Nat) : Recorder := { r with scope := r.scope.take depth }

def declare (r : Recorder) (d : Declaration) : Recorder :=
  { r with table := r.table.push (Name.join r.scope) d }

def define (r : Recorder) (kind : NamespaceKind) (line : Nat) : Recorder :=
  { r with definitions := r.definitions ++ [⟨Name.join r.scope, kind, line⟩] }

mutual

def visit (r : Recorder) : Node → Recorder
  | .call c => r.declare c
  | .space s => visitSpace r s
  | .lambda b => visitBlock r b
  | .array elements => visitAll r elements
  | .other _ children => visitAll r children
  | .hash elements => visitElements r elements
  | .keywordHash elements => visitElements r elements
  | .constantPath outer _ => visitOptional r outer
  | _ => r

def visitAll (r : Recorder) : List Node → Recorder
  | [] => r
  | n :: rest => visitAll (visit r n) rest

def visitElements (r : Recorder) : List HashElement → Recorder
  | [] => r
  | .assoc key value :: rest => visitElements (visit (visit r key) value) rest
  | .splat value :: rest => visitElements (visit r value) rest

def visitOptional (r : Recorder) : Option Node → Recorder
  | none => r
  | some n => visit r n

def visitBlock (r : Recorder) : Block → Recorder
  | ⟨_, body⟩ => visitAll r body

def visitSpace (r : Recorder) : Namespace → Recorder
  | ⟨kind, name, superclass, body, line⟩ =>
    let inside := (r.push (nameSegments name)).define kind line
    (visitAll (visitOptional inside superclass) body).cut r.scope.length

end

/-! ## What a visit adds -/

/-- The recorder with some more findings. -/
def record (r : Recorder) (l : List Finding) : Recorder where
  scope := r.scope
  table := (l.filterMap Finding.declaration?).foldl (fun t p => t.push p.1 p.2) r.table
  definitions := r.definitions ++ l.filterMap Finding.definition?

@[simp] theorem scope_record (r : Recorder) (l : List Finding) : (r.record l).scope = r.scope := rfl

theorem record_nil (r : Recorder) : r.record [] = r := by
  simp [record]

theorem record_append (r : Recorder) (l m : List Finding) :
    r.record (l ++ m) = (r.record l).record m := by
  simp [record]

theorem declare_eq (r : Recorder) (d : Declaration) :
    r.declare d = r.record [.declared r.scope d] := by
  simp [declare, record, Finding.declaration?, Finding.definition?]

/-- Findings recorded inside a class or module, with its own definition first. -/
theorem cut_record (r : Recorder) (segments : List String) (kind : NamespaceKind) (line : Nat)
    (l : List Finding) :
    ((((r.push segments).define kind line).record l).cut r.scope.length) =
      r.record (.defined ⟨Name.join (r.scope ++ segments), kind, line⟩ :: l) := by
  have hdeclared : (Finding.defined ⟨Name.join (r.scope ++ segments), kind, line⟩ :: l).filterMap
      Finding.declaration? = l.filterMap Finding.declaration? := List.filterMap_cons_none rfl
  have hdefined : (Finding.defined ⟨Name.join (r.scope ++ segments), kind, line⟩ :: l).filterMap
      Finding.definition? = ⟨Name.join (r.scope ++ segments), kind, line⟩ ::
        l.filterMap Finding.definition? := List.filterMap_cons_some rfl
  simp [cut, record, define, push, hdeclared, hdefined]

mutual

theorem visit_eq (r : Recorder) : ∀ n : Node, r.visit n = r.record (findings r.scope n)
  | .call c => by rw [visit, findings, declare_eq]
  | .space s => by rw [visit, findings, visitSpace_eq r s]
  | .lambda b => by rw [visit, findings, visitBlock_eq r b]
  | .array elements => by rw [visit, findings, visitAll_eq r elements]
  | .other _ children => by rw [visit, findings, visitAll_eq r children]
  | .hash elements => by rw [visit, findings, visitElements_eq r elements]
  | .keywordHash elements => by rw [visit, findings, visitElements_eq r elements]
  | .constantPath outer _ => by rw [visit, findings, visitOptional_eq r outer]
  | .nil | .bool _ | .integer _ | .string _ | .symbol _ | .constant _ | .methodDef _ => by
    simp [visit, findings, record_nil]

theorem visitAll_eq (r : Recorder) :
    ∀ l : List Node, r.visitAll l = r.record (allFindings r.scope l)
  | [] => by rw [visitAll, allFindings, record_nil]
  | n :: rest => by
    rw [visitAll, allFindings, record_append, visit_eq r n, visitAll_eq _ rest, scope_record]

theorem visitElements_eq (r : Recorder) :
    ∀ l : List HashElement, r.visitElements l = r.record (elementFindings r.scope l)
  | [] => by rw [visitElements, elementFindings, record_nil]
  | .assoc key value :: rest => by
    rw [visitElements, elementFindings, record_append, record_append, visit_eq r key,
      visit_eq _ value, visitElements_eq _ rest, scope_record, scope_record, scope_record]
  | .splat value :: rest => by
    rw [visitElements, elementFindings, record_append, visit_eq r value, visitElements_eq _ rest,
      scope_record]

theorem visitOptional_eq (r : Recorder) :
    ∀ o : Option Node, r.visitOptional o = r.record (optionalFindings r.scope o)
  | none => by rw [visitOptional, optionalFindings, record_nil]
  | some n => by rw [visitOptional, optionalFindings, visit_eq r n]

theorem visitBlock_eq (r : Recorder) :
    ∀ b : Block, r.visitBlock b = r.record (blockFindings r.scope b)
  | ⟨_, body⟩ => by rw [visitBlock, blockFindings, visitAll_eq r body]

theorem visitSpace_eq (r : Recorder) :
    ∀ s : Namespace, r.visitSpace s = r.record (spaceFindings r.scope s)
  | ⟨kind, name, superclass, body, line⟩ => by
    rw [visitSpace, spaceFindings, visitOptional_eq _ superclass, visitAll_eq _ body, scope_record,
      ← record_append, cut_record]
    rfl

end

theorem scope_visit (r : Recorder) (n : Node) : (r.visit n).scope = r.scope := by
  rw [visit_eq, scope_record]

theorem visitAll_append (r : Recorder) (l m : List Node) :
    r.visitAll (l ++ m) = (r.visitAll l).visitAll m := by
  induction l generalizing r with
  | nil => rw [List.nil_append, visitAll]
  | cons n l ih => rw [List.cons_append, visitAll, visitAll, ih]

theorem foldl_visitAll (r : Recorder) (batches : List (List Node)) :
    batches.foldl visitAll r = r.visitAll batches.flatten := by
  induction batches generalizing r with
  | nil => rw [List.foldl_nil, List.flatten_nil, visitAll]
  | cons l batches ih => rw [List.foldl_cons, List.flatten_cons, visitAll_append, ih]

end Recorder

theorem Survey.ofBatches_eq (batches : List (List Node)) :
    ofBatches batches = ofStatements batches.flatten := by
  have h : batches.flatMap (allFindings []) = allFindings [] batches.flatten := by
    induction batches with
    | nil => rw [List.flatMap_nil, List.flatten_nil, allFindings]
    | cons l batches ih => rw [List.flatMap_cons, List.flatten_cons, allFindings_append, ih]
  rw [ofBatches, ofStatements, h]

theorem Recorder.survey_visitAll (statements : List Node) :
    (start.visitAll statements).survey = Survey.ofStatements statements := by
  rw [visitAll_eq]
  rfl

end ModelSurvey
