import Mathlib.Data.List.Forall2
import ModelSurvey.Facts.Scope
import ModelSurvey.Proofs.Syntax.Lowered
import ModelSurvey.Proofs.Syntax.Nodes

/-! Signatures of scopes. The parameters of a lambda are written in a fixed order of groups, and so
are those of its signature. None is lost on the way, and the order is the written one, except that
required parameters behind optional ones, without a rest between them, go before those. -/
namespace ModelSurvey
set_option autoImplicit false
open Syntax

/-! ## Written parameters -/

/-- The parameters of a block in the order that they are written. Required ones stand before the
optional ones and the rest, or after them. Block-local variables are no parameters. -/
structure WrittenParameters where
  before : List RequiredParameter
  optionals : List String
  rest : Option RestParameter
  after : List RequiredParameter
  keywords : List KeywordParameter
  keywordRest : Option KeywordRest
  block : Option (Option String)

namespace WrittenParameters

/-- The keywords, the keyword rest and the block parameter, which come last. -/
def trailing (w : WrittenParameters) : List Parameter :=
  w.keywords.map (fun k => .keyword k.name k.required) ++ w.keywordRest.toList.map .keywordRest ++
    w.block.toList.map .block

def toList (w : WrittenParameters) : List Parameter :=
  w.before.map .required ++ w.optionals.map .optional ++
    w.rest.toList.map (fun r => .rest r.name) ++ w.after.map .required ++ w.trailing

/-- The parameters in the order that a signature has them. -/
def listed (w : WrittenParameters) : List Parameter :=
  if w.rest.isSome then w.toList
  else w.before.map .required ++ w.after.map .required ++ w.optionals.map .optional ++ w.trailing

variable {w : WrittenParameters}

theorem toList_of_rest_none (h : w.rest = none) :
    w.toList =
      w.before.map .required ++ (w.optionals.map .optional ++ w.after.map .required) ++
        w.trailing := by
  rw [toList, h, Option.toList_none, List.map_nil, List.append_nil,
    List.append_assoc (w.before.map _)]

theorem listed_of_rest_none (h : w.rest = none) :
    w.listed =
      w.before.map .required ++ (w.after.map .required ++ w.optionals.map .optional) ++
        w.trailing := by
  rw [listed, h, if_neg (by decide), List.append_assoc (w.before.map _)]

theorem listed_of_isSome (h : w.rest.isSome = true) : w.listed = w.toList := if_pos h

theorem listed_perm (w : WrittenParameters) : w.listed.Perm w.toList := by
  cases hrest : w.rest with
  | some r => rw [listed_of_isSome (by rw [hrest, Option.isSome_some])]
  | none =>
    rw [listed_of_rest_none hrest, toList_of_rest_none hrest]
    exact (List.perm_append_comm.append_left _).append_right _

end WrittenParameters

/-! ## Fragments -/

/-- What a signature shows of a parameter. Block parameters are left out. -/
def Syntax.Parameter.fragment? : Parameter → Option ScopeParameter
  | .required (.named name) => some (.required (some name))
  | .required .destructured => some (.required none)
  | .optional name => some (.optional name)
  | .rest name => some (.rest name)
  | .keyword name true => some (.requiredKeyword name)
  | .keyword name false => some (.optionalKeyword name)
  | .keywordRest (.named name) => some (.keywordRest name)
  | .keywordRest .refused => some (.keywordRest none)
  | .block _ | .forwarding => none

def fragments (l : List Parameter) : List ScopeParameter := l.filterMap Parameter.fragment?

theorem fragments_append (l m : List Parameter) : fragments (l ++ m) = fragments l ++ fragments m :=
  List.filterMap_append

theorem fragments_map_eq {α : Type} {f : α → Parameter} {g : α → ScopeParameter}
    (h : ∀ a, (f a).fragment? = some (g a)) (l : List α) : fragments (l.map f) = l.map g := by
  have hcomp : Parameter.fragment? ∘ f = some ∘ g := funext h
  rw [fragments, List.filterMap_map, hcomp, List.filterMap_eq_map]

theorem fragments_map_optional (l : List String) :
    fragments (l.map .optional) = l.map .optional := fragments_map_eq (fun _ => rfl) l

theorem fragment?_required (p : RequiredParameter) :
    (Parameter.required p).fragment? = some (ScopeParameter.ofRequired p) := by
  cases p <;> rfl

theorem fragment?_keyword (k : KeywordParameter) :
    (Parameter.keyword k.name k.required).fragment? = some (ScopeParameter.ofKeyword k) := by
  obtain ⟨name, required⟩ := k
  cases required <;> rfl

theorem fragment?_keywordRest (k : KeywordRest) :
    (Parameter.keywordRest k).fragment? = some (ScopeParameter.ofKeywordRest k) := by
  cases k <;> rfl

/-! ## Grouping -/

namespace Syntax.Parameters

variable {ps : Parameters}

theorem foldl_add_required (hrest : ps.rest = none) (l : List RequiredParameter) :
    (l.map .required).foldl add ps = { ps with requireds := ps.requireds ++ l } := by
  induction l generalizing ps with
  | nil => simp
  | cons p l ih =>
    rw [List.map_cons, List.foldl_cons, add, hrest]
    simp [ih]

theorem foldl_add_post (hrest : ps.rest.isSome = true) (l : List RequiredParameter) :
    (l.map .required).foldl add ps = { ps with posts := ps.posts ++ l } := by
  induction l generalizing ps with
  | nil => simp
  | cons p l ih =>
    rw [List.map_cons, List.foldl_cons, add, if_pos hrest]
    simp [ih, hrest]

theorem foldl_add_optional (l : List String) :
    (l.map .optional).foldl add ps = { ps with optionals := ps.optionals ++ l } := by
  induction l generalizing ps with
  | nil => simp
  | cons name l ih =>
    rw [List.map_cons, List.foldl_cons, add]
    simp [ih]

theorem foldl_add_keyword (l : List KeywordParameter) :
    (l.map fun k => .keyword k.name k.required).foldl add ps =
      { ps with keywords := ps.keywords ++ l } := by
  induction l generalizing ps with
  | nil => simp
  | cons k l ih =>
    rw [List.map_cons, List.foldl_cons, add]
    simp [ih]

theorem foldl_add_trailing (w : WrittenParameters) :
    w.trailing.foldl add ps =
      { ps with
        keywords := ps.keywords ++ w.keywords
        keywordRest := w.keywordRest.or ps.keywordRest
        block := w.block.getD ps.block } := by
  rw [WrittenParameters.trailing, List.foldl_append, List.foldl_append, foldl_add_keyword]
  cases w.keywordRest <;> cases w.block <;> rfl

theorem ofList_of_rest_none {w : WrittenParameters} (h : w.rest = none) :
    ofList w.toList = {
      requireds := w.before ++ w.after
      optionals := w.optionals
      keywords := w.keywords
      keywordRest := w.keywordRest
      block := w.block.getD none } := by
  rw [ofList, WrittenParameters.toList_of_rest_none h, List.foldl_append, List.foldl_append,
    List.foldl_append, foldl_add_required rfl w.before, foldl_add_optional,
    foldl_add_required rfl w.after, foldl_add_trailing]
  simp

theorem ofList_of_rest {w : WrittenParameters} {r : RestParameter} (h : w.rest = some r) :
    ofList w.toList = {
      requireds := w.before
      optionals := w.optionals
      rest := some r
      posts := w.after
      keywords := w.keywords
      keywordRest := w.keywordRest
      block := w.block.getD none } := by
  rw [ofList, WrittenParameters.toList, h, Option.toList_some, List.map_singleton,
    List.foldl_append, List.foldl_append, List.foldl_append, List.foldl_append,
    foldl_add_required rfl w.before, foldl_add_optional, List.foldl_cons, List.foldl_nil, add,
    foldl_add_post rfl w.after, foldl_add_trailing]
  simp

end Syntax.Parameters

/-! ## Order -/

variable (w : WrittenParameters)

theorem fragments_trailing :
    fragments w.trailing =
      w.keywords.map .ofKeyword ++ (w.keywordRest.map ScopeParameter.ofKeywordRest).toList := by
  have hblock : fragments (w.block.toList.map .block) = [] := by
    cases w.block <;> rfl
  rw [WrittenParameters.trailing, fragments_append, fragments_append, hblock, List.append_nil,
    fragments_map_eq fragment?_keyword, fragments_map_eq fragment?_keywordRest]
  cases w.keywordRest <;> rfl

theorem fragments_toList :
    fragments w.toList =
      w.before.map .ofRequired ++ w.optionals.map .optional ++
        (w.rest.map fun r => ScopeParameter.rest r.name).toList ++ w.after.map .ofRequired ++
        fragments w.trailing := by
  have hrest : fragments (w.rest.toList.map fun r => .rest r.name) =
      (w.rest.map fun r => ScopeParameter.rest r.name).toList := by
    cases w.rest <;> rfl
  rw [WrittenParameters.toList, fragments_append, fragments_append, fragments_append,
    fragments_append, fragments_map_eq fragment?_required, fragments_map_eq fragment?_required,
    fragments_map_optional, hrest]

theorem fragments_listed_of_rest_none {w : WrittenParameters} (h : w.rest = none) :
    fragments w.listed =
      w.before.map .ofRequired ++ (w.after.map .ofRequired ++ w.optionals.map .optional) ++
        fragments w.trailing := by
  rw [WrittenParameters.listed_of_rest_none h, fragments_append, fragments_append,
    fragments_append, fragments_map_eq fragment?_required, fragments_map_eq fragment?_required,
    fragments_map_optional]

theorem ofParameters_ofList :
    ScopeParameter.ofParameters (.ofList w.toList) = fragments w.listed := by
  cases hrest : w.rest with
  | none =>
    rw [Parameters.ofList_of_rest_none hrest, fragments_listed_of_rest_none hrest,
      fragments_trailing]
    simp [ScopeParameter.ofParameters]
  | some r =>
    rw [Parameters.ofList_of_rest hrest,
      WrittenParameters.listed_of_isSome (by rw [hrest, Option.isSome_some]), fragments_toList,
      fragments_trailing, hrest]
    simp [ScopeParameter.ofParameters]

theorem required_append_optional_comm_iff (l : List RequiredParameter) (m : List String) :
    l.map ScopeParameter.ofRequired ++ m.map .optional =
        m.map .optional ++ l.map ScopeParameter.ofRequired ↔ m = [] ∨ l = [] := by
  constructor
  · intro h
    cases l with
    | nil => exact Or.inr rfl
    | cons p l =>
      cases m with
      | nil => exact Or.inl rfl
      | cons name m =>
        have hfirst : ScopeParameter.ofRequired p = .optional name := (List.cons.inj h).1
        cases p <;> cases hfirst
  · rintro (rfl | rfl) <;> simp

/-- The order of writing is kept unless a required parameter stands behind an optional one and there
is no rest. -/
theorem fragments_listed_eq_iff :
    fragments w.listed = fragments w.toList ↔
      w.optionals = [] ∨ w.rest.isSome = true ∨ w.after = [] := by
  cases hrest : w.rest with
  | some r =>
    have hkept : w.listed = w.toList :=
      WrittenParameters.listed_of_isSome (by rw [hrest, Option.isSome_some])
    exact ⟨fun _ => Or.inr (Or.inl rfl), fun _ => by rw [hkept]⟩
  | none =>
    have hwritten : fragments w.toList =
        w.before.map .ofRequired ++ (w.optionals.map .optional ++ w.after.map .ofRequired) ++
          fragments w.trailing := by
      rw [fragments_toList, hrest]
      simp
    rw [fragments_listed_of_rest_none hrest, hwritten, List.append_left_inj,
      List.append_right_inj, required_append_optional_comm_iff]
    simp

/-! ## Parameter lists -/

variable (s : Source)

/-- A tree of a parameter list with the parameter it stands for. -/
inductive Writes (t : Tree) : Parameter → Prop where
  | named {name : String} (hkind : t.kind = "identifier") (hname : s.text t.label = name) :
      Writes t (.required (.named name))
  | destructured (hkind : t.kind = "destructured_parameter") : Writes t (.required .destructured)
  | optional {name : String} (hkind : t.kind = "optional_parameter")
      (hname : Parameter.fieldText? s "name" t = some name) : Writes t (.optional name)
  | rest {name : Option String} (hkind : t.kind = "splat_parameter")
      (hname : Parameter.fieldText? s "name" t = name) : Writes t (.rest name)
  | keyword {name : String} {required : Bool} (hkind : t.kind = "keyword_parameter")
      (hname : Parameter.fieldText? s "name" t = some name)
      (hvalue : (t.field? "value").isNone = required) : Writes t (.keyword name required)
  | keywordRest {name : Option String} (hkind : t.kind = "hash_splat_parameter")
      (hname : Parameter.fieldText? s "name" t = name) : Writes t (.keywordRest (.named name))
  | refused (hkind : t.kind = "hash_splat_nil") : Writes t (.keywordRest .refused)
  | block {name : Option String} (hkind : t.kind = "block_parameter")
      (hname : Parameter.fieldText? s "name" t = name) : Writes t (.block name)

/-- A parameter list that is written with these parameters. Beside their trees it has punctuation,
comments and block-local variables. -/
def WritesList (list : Tree) (l : List Parameter) : Prop :=
  List.Forall₂ (Writes s) (list.children.filter fun t => t.isPart && !t.isField "locals") l

variable {s}

theorem ofTree?_of_writes {t : Tree} {p : Parameter} (h : Writes s t p) :
    Parameter.ofTree? s t = some p := by
  cases h with
  | named hkind hname | rest hkind hname | keywordRest hkind hname | block hkind hname =>
    rw [Parameter.ofTree?, hkind, ← hname]
    rfl
  | destructured hkind | refused hkind =>
    rw [Parameter.ofTree?, hkind]
    rfl
  | optional hkind hname =>
    rw [Parameter.ofTree?, hkind]
    simp only [hname, Option.map_some]
  | keyword hkind hname hvalue =>
    rw [Parameter.ofTree?, hkind, ← hvalue]
    simp only [hname, Option.map_some]

theorem ofTrees_of_writesList {list : Tree} {l : List Parameter} (h : WritesList s list l) :
    Parameters.ofTrees s list.children = .ofList l := by
  have hread : ∀ {ts : List Tree} {l : List Parameter}, List.Forall₂ (Writes s) ts l →
      ts.filterMap (Parameter.ofTree? s) = l := by
    intro ts l h
    induction h with
    | nil => rfl
    | cons ht _ ih => rw [List.filterMap_cons_some (ofTree?_of_writes ht), ih]
  rw [Parameters.ofTrees, hread h]

/-! ## Blocks -/

def isParameterList (t : Tree) : Bool :=
  t.kind == "block_parameters" || t.kind == "lambda_parameters"

theorem isParameterList_iff {t : Tree} :
    isParameterList t = true ↔ Form.ofKind t.kind = .blockParameters := by
  rw [isParameterList, Bool.or_eq_true, beq_iff_eq, beq_iff_eq]
  constructor
  · rintro (h | h) <;> rw [h] <;> rfl
  · intro h
    simpa [Form.table] using Form.mem_table_of_ofKind h (by decide)

theorem lowerBlock_skip {t : Tree} (hpart : t.isPart = false) (r : List Tree) :
    lowerBlock s (t :: r) = lowerBlock s r := by
  obtain ⟨a, cs⟩ := t
  rw [lowerBlock, hpart]
  rfl

theorem lowerBlock_parameters {t : Tree} (hpart : t.isPart = true)
    (hlist : isParameterList t = true) (r : List Tree) :
    lowerBlock s (t :: r) = .parameters (.ofTrees s t.children) :: lowerBlock s r := by
  obtain ⟨a, cs⟩ := t
  have hform : Form.ofKind a.kind = .blockParameters := isParameterList_iff.1 hlist
  rw [lowerBlock, hpart, hform]
  rfl

theorem lowerBlock_other {t : Tree} (hpart : t.isPart = true) (hlist : ¬isParameterList t = true)
    (r : List Tree) :
    ∃ part, lowerBlock s (t :: r) = part :: lowerBlock s r ∧ ∀ ps, part ≠ .parameters ps := by
  obtain ⟨a, cs⟩ := t
  have hform : Form.ofKind a.kind ≠ .blockParameters :=
    mt (isParameterList_iff (t := .node a cs)).2 hlist
  rw [lowerBlock, hpart]
  simp only [Bool.not_true, Bool.false_eq_true, if_false]
  split
  · rename_i h
    exact absurd h hform
  all_goals exact ⟨_, rfl, fun _ => BlockPart.noConfusion⟩

/-- A part other than a parameter list leaves the parameters of a block that has some. -/
theorem parameters_addTo {b : Block} {part : BlockPart} {ps : Parameters}
    (hpart : ∀ qs, part ≠ .parameters qs) (hb : b.parameters = some ps) :
    (part.addTo b).parameters = some ps := by
  cases part with
  | parameters qs => exact absurd rfl (hpart qs)
  | statements l => exact hb
  | inner i => rw [BlockPart.addTo, hb, Option.some_or]

theorem parameters_foldl_lowerBlock {cs : List Tree} {b : Block} {ps : Parameters}
    (hcs : (cs.filter Tree.isPart).filter isParameterList = []) (hb : b.parameters = some ps) :
    ((lowerBlock s cs).foldl BlockPart.addTo b).parameters = some ps := by
  induction cs generalizing b with
  | nil => exact hb
  | cons t r ih =>
    by_cases hpart : t.isPart = true
    · rw [List.filter_cons_of_pos hpart] at hcs
      have hlist : ¬isParameterList t = true := by
        intro hlist
        rw [List.filter_cons_of_pos hlist] at hcs
        cases hcs
      rw [List.filter_cons_of_neg hlist] at hcs
      obtain ⟨part, hr, hother⟩ := lowerBlock_other (s := s) hpart hlist r
      rw [hr, List.foldl_cons]
      exact ih hcs (parameters_addTo hother hb)
    · rw [List.filter_cons_of_neg hpart] at hcs
      rw [lowerBlock_skip (Bool.eq_false_iff.2 hpart)]
      exact ih hcs hb

/-- A block with one parameter list among its parts has the parameters of that list. -/
theorem parameters_foldl_lowerBlock_of_list {cs : List Tree} {list : Tree} {b : Block}
    (hcs : (cs.filter Tree.isPart).filter isParameterList = [list]) :
    ((lowerBlock s cs).foldl BlockPart.addTo b).parameters = some (.ofTrees s list.children) := by
  induction cs generalizing b with
  | nil => cases hcs
  | cons t r ih =>
    by_cases hpart : t.isPart = true
    · rw [List.filter_cons_of_pos hpart] at hcs
      by_cases hlist : isParameterList t = true
      · rw [List.filter_cons_of_pos hlist] at hcs
        obtain ⟨rfl, hr⟩ := List.cons.inj hcs
        rw [lowerBlock_parameters hpart hlist, List.foldl_cons]
        exact parameters_foldl_lowerBlock hr rfl
      · rw [List.filter_cons_of_neg hlist] at hcs
        obtain ⟨part, hr, -⟩ := lowerBlock_other (s := s) hpart hlist r
        rw [hr, List.foldl_cons]
        exact ih hcs
    · rw [List.filter_cons_of_neg hpart] at hcs
      rw [lowerBlock_skip (Bool.eq_false_iff.2 hpart)]
      exact ih hcs

variable (s) in
/-- A lambda with its parameter list: a literal, or a block of the words `lambda` or `proc`. -/
inductive LambdaWith (body list : Tree) : Prop where
  | literal (hkind : body.kind = "lambda") (hlist : body.parts.filter isParameterList = [list])
  | block {word block : Tree} (hkind : body.kind = "call")
    (hreceiver : body.field? "receiver" = none) (hword : body.field? "method" = some word)
    (hname : s.text word.label = "lambda" ∨ s.text word.label = "proc")
    (hblock : body.field? "block" = some block)
    (hlist : block.parts.filter isParameterList = [list])

theorem lambdaBody?_lower {body list : Tree} (h : LambdaWith s body list) :
    ∃ b, ScopeFact.lambdaBody? (lower s body) = some b ∧
      b.parameters = some (.ofTrees s list.children) := by
  obtain ⟨a, cs⟩ := body
  cases h with
  | literal hkind hlist =>
    have hform : Form.ofKind a.kind = .lambda := congrArg Form.ofKind hkind
    refine ⟨BlockPart.assemble (lowerBlock s cs), ?_, parameters_foldl_lowerBlock_of_list hlist⟩
    simp only [lower, hform, ScopeFact.lambdaBody?]
  | @block word block hkind hreceiver hword hname hblock hlist =>
    have hform : Form.ofKind a.kind = .call := congrArg Form.ofKind hkind
    have hreceiver : lowerField s "receiver" cs = none := by
      rw [lowerField_eq, show cs.find? (Tree.isField "receiver") = none from hreceiver,
        Option.map_none]
    have hword : fieldText? s "method" cs = some (s.text word.label) := by
      rw [fieldText?, show cs.find? (Tree.isField "method") = some word from hword, Option.map_some]
    have hblock : lowerBlockField s cs =
        some (BlockPart.assemble (lowerBlock s block.children)) := by
      rw [lowerBlockField_eq, show cs.find? (Tree.isField "block") = some block from hblock,
        Option.map_some]
    refine ⟨BlockPart.assemble (lowerBlock s block.children), ?_,
      parameters_foldl_lowerBlock_of_list hlist⟩
    simp only [lower, hform, ScopeFact.lambdaBody?, hreceiver, hword, hblock, Option.getD_some,
      if_pos hname]

/-! ## Signatures -/

/-- The signature of a scope has one fragment for each written parameter but the block parameter, of
its kind and name. They are in the order of writing exactly if no required parameter stands behind
an optional one without a rest between them. Then it goes before the optional ones. -/
theorem scope_signatures_in_order_iff {d : Declaration} {first : Node} {more : List Node}
    {name : String} {body list : Tree} (w : WrittenParameters) (hscope : d.name = "scope")
    (harguments : d.arguments = first :: lower s body :: more)
    (hfirst : first.evaluate.bind Value.name? = some name) (hbody : LambdaWith s body list)
    (hlist : WritesList s list w.toList) :
    ∃ fact shown, ScopeFact.extract d = some fact ∧ fact.name = name ∧
      fact.parameters = some shown ∧
      fact.signature = "(" ++ ", ".intercalate (shown.map ScopeParameter.render) ++ ")" ∧
      shown = fragments w.listed ∧ shown.Perm (fragments w.toList) ∧
      (shown = fragments w.toList ↔ w.optionals = [] ∨ w.rest.isSome = true ∨ w.after = []) := by
  obtain ⟨b, hb, hparameters⟩ := lambdaBody?_lower hbody
  have hshown : (b.parameters.map ScopeParameter.ofParameters).getD [] = fragments w.listed := by
    rw [hparameters, Option.map_some, Option.getD_some, ofTrees_of_writesList hlist,
      ofParameters_ofList]
  have hextract : ScopeFact.extract d = some ⟨name, some (fragments w.listed), d.line⟩ := by
    rw [ScopeFact.extract, if_neg (not_not.2 hscope), harguments]
    simp only [hfirst, Option.map_some, List.head?_cons, Option.bind_some, hb, hshown]
  exact ⟨_, fragments w.listed, hextract, rfl, rfl, rfl, rfl, w.listed_perm.filterMap _,
    fragments_listed_eq_iff w⟩

/-! ## Two lambdas -/

/-- A lambda literal with its parameter list. Its block is between these offsets. -/
def lambdaOver (list : Tree) (start stop : Nat) : Tree :=
  .clean "lambda" none 0 stop [list, .clean "block" (some "body") start stop [
    .clean "identifier" none (start + 2) (stop - 2) []]]

def scopeOver (s : Source) (body : Tree) : Declaration :=
  ⟨none, "scope", [.symbol "between", lower s body], none, 1⟩

def fieldName (start stop : Nat) : Tree := .clean "identifier" (some "name") start stop []

def searchSource : Source :=
  .ofString ("->(user, (x, y), limit = 10, *rest, last, kw:, opt: 1, **opts, &blk; tmp) " ++
    "\x7b all \x7d")

def searchList : Tree :=
  .clean "lambda_parameters" (some "parameters") 2 73 [
    .clean "identifier" none 3 7 [],
    .clean "destructured_parameter" none 9 15 [
      .clean "identifier" none 10 11 [], .clean "identifier" none 13 14 []],
    .clean "optional_parameter" none 17 27 [
      fieldName 17 22, .clean "integer" (some "value") 25 27 []],
    .clean "splat_parameter" none 29 34 [fieldName 30 34],
    .clean "identifier" none 36 40 [],
    .clean "keyword_parameter" none 42 45 [fieldName 42 44],
    .clean "keyword_parameter" none 47 53 [
      fieldName 47 50, .clean "integer" (some "value") 52 53 []],
    .clean "hash_splat_parameter" none 55 61 [fieldName 57 61],
    .clean "block_parameter" none 63 67 [fieldName 64 67],
    .clean "identifier" (some "locals") 69 72 []]

def searchParameters : WrittenParameters where
  before := [.named "user", .destructured]
  optionals := ["limit"]
  rest := some ⟨some "rest"⟩
  after := [.named "last"]
  keywords := [⟨"kw", true⟩, ⟨"opt", false⟩]
  keywordRest := some (.named (some "opts"))
  block := some (some "blk")

theorem scope_signatures_in_order_iff_search :
    let body := lambdaOver searchList 74 81
    LambdaWith searchSource body searchList ∧
    WritesList searchSource searchList searchParameters.toList ∧
    ∃ fact, ScopeFact.extract (scopeOver searchSource body) = some fact ∧
      fact.parameters = some (fragments searchParameters.toList) ∧
      fact.signature = "(untyped user, untyped, ?untyped limit, *untyped rest, untyped last, " ++
        "kw: untyped, ?opt: untyped, **untyped opts)" := by
  intro body
  have hbody : LambdaWith searchSource body searchList := .literal rfl rfl
  have hlist : WritesList searchSource searchList searchParameters.toList :=
    .cons (.named rfl (by decide +kernel)) (.cons (.destructured rfl)
      (.cons (.optional rfl (by decide +kernel)) (.cons (.rest rfl (by decide +kernel))
        (.cons (.named rfl (by decide +kernel)) (.cons (.keyword rfl (by decide +kernel) rfl)
          (.cons (.keyword rfl (by decide +kernel) rfl)
            (.cons (.keywordRest rfl (by decide +kernel))
              (.cons (.block rfl (by decide +kernel)) .nil))))))))
  obtain ⟨fact, shown, hextract, -, hparameters, hsignature, -, -, horder⟩ :=
    scope_signatures_in_order_iff (d := scopeOver searchSource body) searchParameters rfl rfl rfl
      hbody hlist
  have hshown : shown = fragments searchParameters.toList := horder.2 (Or.inr (Or.inl rfl))
  refine ⟨hbody, hlist, fact, hextract, by rw [hparameters, hshown], ?_⟩
  rw [hsignature, hshown]
  decide +kernel

def betweenSource : Source := .ofString "->(a, b = 1, c) \x7b all \x7d"

def betweenList : Tree :=
  .clean "lambda_parameters" (some "parameters") 2 15 [
    .clean "identifier" none 3 4 [],
    .clean "optional_parameter" none 6 11 [fieldName 6 7, .clean "integer" (some "value") 10 11 []],
    .clean "identifier" none 13 14 []]

def betweenParameters : WrittenParameters where
  before := [.named "a"]
  optionals := ["b"]
  rest := none
  after := [.named "c"]
  keywords := []
  keywordRest := none
  block := none

/-- The required parameter behind the optional one is written last but shown in the middle. -/
theorem required_behind_optional_moves :
    let body := lambdaOver betweenList 16 23
    LambdaWith betweenSource body betweenList ∧
    WritesList betweenSource betweenList betweenParameters.toList ∧
    (fragments betweenParameters.toList).map ScopeParameter.render =
      ["untyped a", "?untyped b", "untyped c"] ∧
    (ScopeFact.extract (scopeOver betweenSource body)).map ScopeFact.signature =
      some "(untyped a, untyped c, ?untyped b)" ∧
    (ScopeFact.extract (scopeOver betweenSource body)).bind ScopeFact.parameters ≠
      some (fragments betweenParameters.toList) := by
  have hlist : WritesList betweenSource betweenList betweenParameters.toList :=
    .cons (.named rfl (by decide +kernel)) (.cons (.optional rfl (by decide +kernel))
      (.cons (.named rfl (by decide +kernel)) .nil))
  exact ⟨.literal rfl rfl, hlist, by decide, by decide +kernel, by decide +kernel⟩

end ModelSurvey
