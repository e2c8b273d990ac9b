import Mathlib.Data.List.Forall2
import ModelSurvey.Declaration.Collect
import ModelSurvey.Proofs.Syntax.Nodes
import ModelSurvey.Syntax.Lower

/-! What lies inside a method is never looked at. Two trees are alike if they differ at most inside
methods. Lowering reads a method by its label and the label of its name only, so alike trees are
lowered to the same statements. -/
namespace ModelSurvey.Syntax
set_option autoImplicit false

/-! ## Trees that differ inside methods -/

/-- Whether a method may stand there: lowering goes through superclasses, argument lists, blocks and
the parts of adjacent strings by their children. -/
def mayHoldMethod (parent : Form) (a : Label) : Bool :=
  !List.contains [some "superclass", some "arguments", some "block"] a.field &&
    !(parent == .chainedString && a.named && !a.extra)

mutual

/-- Two trees that agree except inside methods. If `free` is not set, the roots are no methods that
differ. -/
inductive Alike : Bool → Tree → Tree → Prop where
  | method {free : Bool} {a : Label} {cs cs' : List Tree} (hfree : free = true)
      (ha : Form.ofKind a.kind = .method)
      (hname : (cs.find? (Tree.isField "name")).map Tree.label =
        (cs'.find? (Tree.isField "name")).map Tree.label) :
      Alike free (.node a cs) (.node a cs')
  | node {free : Bool} {a : Label} {cs cs' : List Tree} (h : AlikeAll (Form.ofKind a.kind) cs cs') :
      Alike free (.node a cs) (.node a cs')

inductive AlikeAll : Form → List Tree → List Tree → Prop where
  | nil {parent : Form} : AlikeAll parent [] []
  | cons {parent : Form} {t t' : Tree} {r r' : List Tree}
      (ht : Alike (mayHoldMethod parent t.label) t t') (hr : AlikeAll parent r r') :
      AlikeAll parent (t :: r) (t' :: r')

end

/-! ## What lowering sees -/

def LabelsAgree : List Tree → List Tree → Prop := List.Forall₂ fun t t' => t.label = t'.label

variable (s : Source)

/-- Two lists of children that are lowered alike wherever the node above them is taken apart. -/
structure SameInside (cs cs' : List Tree) : Prop where
  labels : LabelsAgree cs cs'
  statements : lowerStatements s cs = lowerStatements s cs'
  block : lowerBlock s cs = lowerBlock s cs'
  first : lowerFirst s cs = lowerFirst s cs'
  arguments : lowerArgumentList s cs = lowerArgumentList s cs'
  field : ∀ f, lowerField s f cs = lowerField s f cs'
  parameters : Parameters.ofTrees s cs = Parameters.ofTrees s cs'

/-- Two trees that are lowered alike, and whose children are unless they are free methods. -/
structure SameSeen (free : Bool) (t t' : Tree) : Prop where
  label : t.label = t'.label
  node : lower s t = lower s t'
  element : lowerElement s t = lowerElement s t'
  inside : free = false ∨ Form.ofKind t.kind ≠ .method → SameInside s t.children t'.children

def SameSeenAll (parent : Form) : List Tree → List Tree → Prop :=
  List.Forall₂ fun t t' => SameSeen s (mayHoldMethod parent t.label) t t'

variable {s} {free : Bool} {t t' : Tree} {cs cs' : List Tree} {parent : Form}

namespace SameSeen

theorem kind (h : SameSeen s free t t') : t.kind = t'.kind := congrArg Label.kind h.label

theorem inside_of_form (h : SameSeen s free t t') {form : Form} (hform : Form.ofKind t.kind = form)
    (hne : form ≠ .method) : SameInside s t.children t'.children :=
  h.inside (Or.inr (hform ▸ hne))

/-- A child in a field that lowering takes apart is no free method. -/
theorem inside_of_field (h : SameSeen s (mayHoldMethod parent t.label) t t') {f : String}
    (hf : t.isField f = true) (hmem : some f ∈ [some "superclass", some "arguments", some "block"]) :
    SameInside s t.children t'.children := by
  refine h.inside (Or.inl ?_)
  have hfield : t.label.field = some f := eq_of_beq hf
  rw [mayHoldMethod, hfield, List.contains_iff_mem.2 hmem]
  rfl

end SameSeen

/-! ## Labels -/

theorem isPart_congr (h : t.label = t'.label) : t.isPart = t'.isPart := by
  rw [Tree.isPart, Tree.isPart, h]

theorem isField_congr (h : t.label = t'.label) (f : String) : t.isField f = t'.isField f := by
  rw [Tree.isField, Tree.isField, h]

theorem find?_label (h : LabelsAgree cs cs') (f : String) :
    (cs.find? (Tree.isField f)).map Tree.label = (cs'.find? (Tree.isField f)).map Tree.label := by
  induction h with
  | nil => rfl
  | cons ht hr ih =>
    rw [List.find?_cons, List.find?_cons, isField_congr ht f]
    split
    · exact congrArg some ht
    · exact ih

theorem fieldText?_of_label {f : String}
    (h : (cs.find? (Tree.isField f)).map Tree.label = (cs'.find? (Tree.isField f)).map Tree.label) :
    fieldText? s f cs = fieldText? s f cs' := by
  have hmap := congrArg (Option.map s.text) h
  rw [Option.map_map, Option.map_map] at hmap
  exact hmap

theorem fieldText?_congr (h : LabelsAgree cs cs') (f : String) :
    fieldText? s f cs = fieldText? s f cs' := fieldText?_of_label (find?_label h f)

theorem negated?_congr (h : LabelsAgree cs cs') : negated? s cs = negated? s cs' := by
  have hoperand := find?_label h "operand"
  rw [negated?, negated?, fieldText?_congr h "operator"]
  cases ht : cs.find? (Tree.isField "operand") with
  | none =>
    rw [ht, Option.map_none] at hoperand
    rw [Option.map_eq_none_iff.1 hoperand.symm]
  | some t =>
    rw [ht, Option.map_some] at hoperand
    obtain ⟨t', ht', hlabel⟩ := Option.map_eq_some_iff.1 hoperand.symm
    have hkind : t.kind = t'.kind := congrArg Label.kind hlabel.symm
    rw [ht']
    cases fieldText? s "operator" cs' with
    | none => rfl
    | some operator =>
      by_cases hminus : operator = "-"
      · subst hminus
        simp only [hkind, hlabel]
      · simp [hminus]

theorem concatPieces?_congr {f : Tree → Option (List Char)}
    (h : List.Forall₂ (fun t t' => t.isPart = t'.isPart ∧ (t.isPart = true → f t = f t')) cs cs') :
    concatPieces? f (cs.filter Tree.isPart) = concatPieces? f (cs'.filter Tree.isPart) := by
  induction h with
  | nil => rfl
  | @cons t t' r r' ht hr ih =>
    cases hpart : t.isPart with
    | false =>
      rw [List.filter_cons_of_neg (by simp [hpart]),
        List.filter_cons_of_neg (by simp [← ht.1, hpart]), ih]
    | true =>
      rw [List.filter_cons_of_pos hpart, List.filter_cons_of_pos (ht.1 ▸ hpart), concatPieces?,
        concatPieces?, ht.2 hpart, ih]

theorem any_named_congr (h : LabelsAgree cs cs') :
    cs.any (·.label.named) = cs'.any (·.label.named) := by
  induction h with
  | nil => rfl
  | cons ht hr ih => rw [List.any_cons, List.any_cons, ht, ih]

theorem stringChars?_congr (a : Label) (h : LabelsAgree cs cs') :
    stringChars? s (.node a cs) = stringChars? s (.node a cs') := by
  have hplain : isPlainWord (.node a cs) = isPlainWord (.node a cs') := by
    rw [isPlainWord, isPlainWord, Tree.children, Tree.children, any_named_congr h]
    rfl
  have hpieces : ∀ single, concatPieces? (pieceText? s single) (cs.filter Tree.isPart) =
      concatPieces? (pieceText? s single) (cs'.filter Tree.isPart) := by
    intro single
    refine concatPieces?_congr (h.imp fun t t' ht => ⟨isPart_congr ht, fun _ => ?_⟩)
    rw [pieceText?, pieceText?, Tree.kind, Tree.kind, ht]
  rw [stringChars?, stringChars?, hplain, Tree.parts, Tree.parts]
  dsimp only [Tree.children, Tree.label]
  rw [hpieces]

/-! ## Lists of children -/

namespace SameSeenAll

theorem labels (h : SameSeenAll s parent cs cs') : LabelsAgree cs cs' :=
  h.imp fun _ _ ht => ht.label

theorem lowerParts_eq (h : SameSeenAll s parent cs cs') : lowerParts s cs = lowerParts s cs' := by
  induction h with
  | nil => rfl
  | cons ht hr ih => rw [lowerParts, lowerParts, isPart_congr ht.label, ht.node, ih]

theorem lowerField_eq (h : SameSeenAll s parent cs cs') (f : String) :
    lowerField s f cs = lowerField s f cs' := by
  induction h with
  | nil => rfl
  | cons ht hr ih => rw [lowerField, lowerField, isField_congr ht.label, ht.node, ih]

theorem lowerFirst_eq (h : SameSeenAll s parent cs cs') : lowerFirst s cs = lowerFirst s cs' := by
  induction h with
  | nil => rfl
  | cons ht hr ih => rw [lowerFirst, lowerFirst, isPart_congr ht.label, ht.node, ih]

theorem lowerElements_eq (h : SameSeenAll s parent cs cs') :
    lowerElements s cs = lowerElements s cs' := by
  induction h with
  | nil => rfl
  | cons ht hr ih => rw [lowerElements, lowerElements, isPart_congr ht.label, ht.element, ih]

theorem lowerArgumentList_eq (h : SameSeenAll s parent cs cs') :
    lowerArgumentList s cs = lowerArgumentList s cs' := by
  induction h with
  | nil => rfl
  | cons ht hr ih =>
    rw [lowerArgumentList, lowerArgumentList, isPart_congr ht.label, ht.kind, ht.element, ht.node,
      ih]

theorem lowerKey_eq (h : SameSeenAll s parent cs cs') : lowerKey s cs = lowerKey s cs' := by
  induction h with
  | nil => rfl
  | @cons t t' r r' ht hr ih =>
    have hnext : r.head?.any (·.kind == ":") = r'.head?.any (·.kind == ":") := by
      cases hr with
      | nil => rfl
      | cons hu _ => exact congrArg (· == ":") hu.kind
    rw [lowerKey, lowerKey, isField_congr ht.label, ht.node, hnext, ih]

theorem lowerStatements_eq (h : SameSeenAll s parent cs cs') :
    lowerStatements s cs = lowerStatements s cs' := by
  induction h with
  | nil => rfl
  | @cons t t' r r' ht hr ih =>
    obtain ⟨a, cs⟩ := t
    obtain ⟨a', cs'⟩ := t'
    obtain rfl : a = a' := ht.label
    rw [lowerStatements, lowerStatements, isPart_congr ht.label, ht.node, ih]
    have hinside : ∀ form, Form.ofKind a.kind = form → form ≠ .method →
        lowerStatements s cs = lowerStatements s cs' := fun form hform hne =>
      (ht.inside_of_form hform hne).statements
    split
    · rfl
    · split
      · rw [hinside _ ‹_› (by decide)]
      · rw [hinside _ ‹_› (by decide)]
      · rfl
      · rfl

theorem lowerArguments_eq (h : SameSeenAll s parent cs cs') :
    lowerArguments s cs = lowerArguments s cs' := by
  induction h with
  | nil => rfl
  | @cons t t' r r' ht hr ih =>
    obtain ⟨a, cs⟩ := t
    obtain ⟨a', cs'⟩ := t'
    rw [lowerArguments, lowerArguments, isField_congr ht.label, ih]
    split
    · rename_i hfield
      rw [← isField_congr ht.label] at hfield
      exact (ht.inside_of_field hfield (by decide)).arguments
    · rfl

theorem lowerBlockField_eq (h : SameSeenAll s parent cs cs') :
    lowerBlockField s cs = lowerBlockField s cs' := by
  induction h with
  | nil => rfl
  | @cons t t' r r' ht hr ih =>
    obtain ⟨a, cs⟩ := t
    obtain ⟨a', cs'⟩ := t'
    rw [lowerBlockField, lowerBlockField, isField_congr ht.label, ih]
    split
    · rename_i hfield
      rw [← isField_congr ht.label] at hfield
      have hblock : lowerBlock s cs = lowerBlock s cs' :=
        (ht.inside_of_field hfield (by decide)).block
      rw [hblock]
    · rfl

theorem lowerBlock_eq (h : SameSeenAll s parent cs cs') : lowerBlock s cs = lowerBlock s cs' := by
  induction h with
  | nil => rfl
  | @cons t t' r r' ht hr ih =>
    obtain ⟨a, cs⟩ := t
    obtain ⟨a', cs'⟩ := t'
    obtain rfl : a = a' := ht.label
    rw [lowerBlock, lowerBlock, isPart_congr ht.label, ht.node, ih]
    have hinside : ∀ form, Form.ofKind a.kind = form → form ≠ .method → SameInside s cs cs' :=
      fun form hform hne => ht.inside_of_form hform hne
    split
    · rfl
    · split
      · rw [(hinside _ ‹_› (by decide)).parameters]
      · rw [(hinside _ ‹_› (by decide)).statements]
      · rw [(hinside _ ‹_› (by decide)).statements]
      · rw [(hinside _ ‹_› (by decide)).block]
      · rfl
      · rfl

theorem lowerWriter_eq (h : SameSeenAll s parent cs cs') :
    lowerWriter s cs = lowerWriter s cs' := by
  induction h with
  | nil => rfl
  | @cons t t' r r' ht hr ih =>
    obtain ⟨a, cs⟩ := t
    obtain ⟨a', cs'⟩ := t'
    obtain rfl : a = a' := ht.label
    rw [lowerWriter, lowerWriter, isField_congr ht.label, ih]
    split
    · split
      · rename_i hkind
        have hcall : Form.ofKind a.kind = .call := by
          rw [hkind]
          decide
        have hinside : SameInside s cs cs' := ht.inside_of_form hcall (by decide)
        rw [hinside.field, fieldText?_congr hinside.labels]
      · rfl
    · rfl

theorem lowerNamespace_eq (h : SameSeenAll s parent cs cs') :
    lowerNamespace s cs = lowerNamespace s cs' := by
  induction h with
  | nil => rfl
  | @cons t t' r r' ht hr ih =>
    obtain ⟨a, cs⟩ := t
    obtain ⟨a', cs'⟩ := t'
    obtain rfl : a = a' := ht.label
    rw [lowerNamespace, lowerNamespace, isField_congr ht.label, isField_congr ht.label,
      isPart_congr ht.label, ht.node, ih]
    split
    · rfl
    · split
      · rename_i hfield
        rw [← isField_congr ht.label] at hfield
        have hfirst : lowerFirst s cs = lowerFirst s cs' :=
          (ht.inside_of_field hfield (by decide)).first
        rw [hfirst]
      · split
        · rfl
        · split
          · rename_i hform
            have hstatements : lowerStatements s cs = lowerStatements s cs' :=
              (ht.inside_of_form hform (by decide)).statements
            rw [hstatements]
          · rfl
          · rfl

theorem chainedChars?_eq (h : SameSeenAll s .chainedString cs cs') :
    chainedChars? s (cs.filter Tree.isPart) = chainedChars? s (cs'.filter Tree.isPart) := by
  refine concatPieces?_congr (h.imp fun t t' ht => ⟨isPart_congr ht.label, fun hpart => ?_⟩)
  have hheld : mayHoldMethod .chainedString t.label = false := by
    have hnamed : (t.label.named && !t.label.extra) = true := hpart
    rw [mayHoldMethod, Bool.and_assoc, hnamed]
    simp
  have hinside := ht.inside (Or.inl hheld)
  obtain ⟨a, cs⟩ := t
  obtain ⟨a', cs'⟩ := t'
  obtain rfl : a = a' := ht.label
  exact stringChars?_congr a hinside.labels

end SameSeenAll

/-! ## Parameters -/

theorem Parameter.fieldText?_congr (h : LabelsAgree t.children t'.children) (f : String) :
    Parameter.fieldText? s f t = Parameter.fieldText? s f t' :=
  fieldText?_of_label (find?_label h f)

theorem isNone_field?_congr (h : LabelsAgree t.children t'.children) (f : String) :
    (t.field? f).isNone = (t'.field? f).isNone := by
  have hfield := congrArg Option.isNone (find?_label h f)
  rw [Option.isNone_map, Option.isNone_map] at hfield
  exact hfield

theorem Parameter.ofTree?_of_method (hform : Form.ofKind t.kind = .method) :
    Parameter.ofTree? s t = none := by
  rw [Parameter.ofTree?]
  split
  -- The kinds of parameters have other forms.
  all_goals first
    | rfl
    | (rename_i hkind
       rw [hkind] at hform
       exact absurd hform (by decide))

theorem SameSeen.parameter_eq (h : SameSeen s free t t') :
    Parameter.ofTree? s t = Parameter.ofTree? s t' := by
  by_cases hform : Form.ofKind t.kind = .method
  · have hform' : Form.ofKind t'.kind = .method := h.kind ▸ hform
    rw [Parameter.ofTree?_of_method hform, Parameter.ofTree?_of_method hform']
  · have hlabels := (h.inside (Or.inr hform)).labels
    rw [Parameter.ofTree?, Parameter.ofTree?, h.kind, h.label]
    simp only [Parameter.fieldText?_congr hlabels, isNone_field?_congr hlabels]

theorem SameSeenAll.parameters_eq (h : SameSeenAll s parent cs cs') :
    Parameters.ofTrees s cs = Parameters.ofTrees s cs' := by
  have hparameters : (cs.filter fun t => t.isPart && !t.isField "locals").filterMap
      (Parameter.ofTree? s) = (cs'.filter fun t => t.isPart && !t.isField "locals").filterMap
        (Parameter.ofTree? s) := by
    induction h with
    | nil => rfl
    | cons ht hr ih =>
      rw [List.filter_cons, List.filter_cons, isPart_congr ht.label, isField_congr ht.label]
      split
      · rw [List.filterMap_cons, List.filterMap_cons, ht.parameter_eq, ih]
      · exact ih
  rw [Parameters.ofTrees, Parameters.ofTrees, hparameters]

/-! ## Trees -/

theorem SameSeenAll.sameInside (h : SameSeenAll s parent cs cs') : SameInside s cs cs' where
  labels := h.labels
  statements := h.lowerStatements_eq
  block := h.lowerBlock_eq
  first := h.lowerFirst_eq
  arguments := h.lowerArgumentList_eq
  field := h.lowerField_eq
  parameters := h.parameters_eq

theorem lowerElement_eq {a : Label} (h : SameSeenAll s (Form.ofKind a.kind) cs cs') :
    lowerElement s (.node a cs) = lowerElement s (.node a cs') := by
  rw [lowerElement, lowerElement, h.lowerKey_eq, h.lowerField_eq, h.lowerParts_eq]

theorem lower_eq {a : Label} (h : SameSeenAll s (Form.ofKind a.kind) cs cs') :
    lower s (.node a cs) = lower s (.node a cs') := by
  have hchained : Form.ofKind a.kind = .chainedString →
      chainedChars? s (cs.filter Tree.isPart) = chainedChars? s (cs'.filter Tree.isPart) := by
    intro hform
    rw [hform] at h
    exact h.chainedChars?_eq
  rw [lower, lower, negated?_congr h.labels, stringChars?_congr a h.labels,
    fieldText?_congr h.labels, fieldText?_congr h.labels, h.lowerParts_eq, h.lowerElements_eq,
    h.lowerField_eq, h.lowerField_eq, h.lowerField_eq, h.lowerArguments_eq, h.lowerBlockField_eq,
    h.lowerWriter_eq, h.lowerBlock_eq, h.lowerNamespace_eq, h.lowerStatements_eq]
  cases hform : Form.ofKind a.kind with
  | chainedString =>
    dsimp only
    rw [hchained hform]
  | _ => rfl

theorem sameSeenAll_of {ts ts' : List Tree}
    (ih : ∀ t ∈ ts, ∀ (free : Bool) (t' : Tree), Alike free t t' → SameSeen s free t t')
    (h : AlikeAll parent ts ts') : SameSeenAll s parent ts ts' := by
  induction ts generalizing ts' with
  | nil =>
    cases h
    exact List.Forall₂.nil
  | cons t r ihr =>
    cases h with
    | cons ht hr =>
      obtain ⟨iht, ihrest⟩ := List.forall_mem_cons.1 ih
      exact List.Forall₂.cons (iht _ _ ht) (ihr ihrest hr)

theorem sameSeen (h : Alike free t t') : SameSeen s free t t' := by
  induction t using Tree.induction generalizing free t' with
  | h a cs ih =>
    cases h with
    | @method _ _ _ cs' htrue ha hname =>
      have hnode : lower s (.node a cs) = lower s (.node a cs') := by
        simp only [lower, ha, fieldText?_of_label hname]
      have helement : lowerElement s (.node a cs) = lowerElement s (.node a cs') := by
        simp only [lowerElement, ha]
      refine ⟨rfl, hnode, helement, fun hfree => ?_⟩
      rcases hfree with hfalse | hform
      · rw [htrue] at hfalse
        cases hfalse
      · exact absurd ha hform
    | node h =>
      have hall : SameSeenAll s (Form.ofKind a.kind) cs _ :=
        sameSeenAll_of (fun t ht free t' => ih t ht) h
      exact ⟨rfl, lower_eq hall, lowerElement_eq hall, fun _ => hall.sameInside⟩

/-- Trees that differ only inside methods are lowered to the same statements, so that the surveys
are the same. -/
theorem methods_stay_closed (s : Source) {root root' : Tree} (h : Alike false root root') :
    (Program.ofTree s root).statements = (Program.ofTree s root').statements ∧
    Survey.ofStatements (Program.ofTree s root).statements =
      Survey.ofStatements (Program.ofTree s root').statements := by
  have hstatements : (Program.ofTree s root).statements = (Program.ofTree s root').statements :=
    ((sameSeen h).inside (Or.inl rfl)).statements
  exact ⟨hstatements, congrArg Survey.ofStatements hstatements⟩

/-- A class with a method, given by what is inside the method, and a call behind it. -/
def classAround (inside : List Tree) : Tree :=
  .clean "program" none 0 26 [
    .clean "class" none 0 25 [
      .clean "constant" (some "name") 6 7 [],
      .clean "body_statement" (some "body") 8 21 [
        .clean "method" none 8 19 inside,
        .clean "identifier" none 20 21 []]]]

theorem methods_stay_closed_classAround :
    let s := Source.ofString "class A\ndef f\nx\nend\ny\nend\n"
    let name := Tree.clean "identifier" (some "name") 12 13 []
    let body := Tree.clean "body_statement" (some "body") 14 15 [.clean "identifier" none 14 15 []]
    let program := Program.ofTree s (classAround [name, body])
    let emptied := Program.ofTree s (classAround [name])
    Alike false (classAround [name, body]) (classAround [name]) ∧
      ((Survey.ofStatements program.statements).table.bucket "A").map (·.name) = ["y"] ∧
      program.statements = emptied.statements ∧
      Survey.ofStatements program.statements = Survey.ofStatements emptied.statements := by
  intro s name body program emptied
  have hmethod : Alike true (.clean "method" none 8 19 [name, body])
      (.clean "method" none 8 19 [name]) := .method rfl (by decide) rfl
  have hbody : AlikeAll .bodyStatement
      [.clean "method" none 8 19 [name, body], .clean "identifier" none 20 21 []]
      [.clean "method" none 8 19 [name], .clean "identifier" none 20 21 []] :=
    .cons hmethod (.cons (.node .nil) .nil)
  have hclass : AlikeAll (Form.ofKind "program") (classAround [name, body]).children
      (classAround [name]).children :=
    .cons (.node (.cons (.node .nil) (.cons (.node hbody) .nil))) .nil
  have halike : Alike false (classAround [name, body]) (classAround [name]) := .node hclass
  exact ⟨halike, by decide +kernel, methods_stay_closed s halike⟩

end ModelSurvey.Syntax
