import ModelSurvey.Analysis
import ModelSurvey.Proofs.Expansion.Order

/-! Which facts take effect. Declarations one after another give facts one after another, malformed
ones none, and of the facts with one name the last takes effect. Expanding puts what an include
brings between the neighbours of the include, so it overrides all that stands before it and is
overridden by all that stands behind it. -/
namespace ModelSurvey
set_option autoImplicit false

/-! ## The last fact -/

/-- What is left of the facts with a name: the one that no later declaration overrides, or nothing
if no declaration gives such a fact. -/
def LastFact {α : Type} (extract : Declaration → Option α) (nameOf : α → String) (name : String)
    (ds : List Declaration) : Option α → Prop
  | some fact => ∃ front d back, ds = front ++ d :: back ∧ extract d = some fact ∧
      nameOf fact = name ∧ ∀ later ∈ back, ∀ other, extract later = some other → nameOf other ≠ name
  | none => ∀ d ∈ ds, ∀ fact, extract d = some fact → nameOf fact ≠ name

section lastFact

variable {α : Type} {extract : Declaration → Option α} {nameOf : α → String} {name : String}
  {ds : List Declaration}

theorem find?_reverse_filterMap_eq_some_iff {fact : α} :
    ((ds.filterMap extract).reverse.find? fun f => nameOf f == name) = some fact ↔
      LastFact extract nameOf name ds (some fact) := by
  rw [List.find?_eq_some_iff_append]
  constructor
  · rintro ⟨hname, as, bs, hsplit, has⟩
    have hfacts : ds.filterMap extract = bs.reverse ++ fact :: as.reverse := by
      rw [← List.reverse_reverse (ds.filterMap extract), hsplit]
      simp
    obtain ⟨front, rest, rfl, -, hrest⟩ := List.filterMap_eq_append_iff.1 hfacts
    obtain ⟨skipped, d, back, rfl, -, hd, hback⟩ := List.filterMap_eq_cons_iff.1 hrest
    refine ⟨front ++ skipped, d, back, (List.append_assoc ..).symm, hd, beq_iff_eq.1 hname, ?_⟩
    intro later hlater other hother
    have hmem : other ∈ as.reverse := hback ▸ List.mem_filterMap.2 ⟨later, hlater, hother⟩
    have hne := has other (List.mem_reverse.1 hmem)
    simpa using hne
  · rintro ⟨front, d, back, rfl, hd, hname, hlater⟩
    refine ⟨beq_iff_eq.2 hname, (back.filterMap extract).reverse,
      (front.filterMap extract).reverse, ?_, ?_⟩
    · simp [List.filterMap_append, List.filterMap_cons_some hd]
    · intro other hother
      obtain ⟨later, hmem, hother⟩ := List.mem_filterMap.1 (List.mem_reverse.1 hother)
      simpa using hlater later hmem other hother

theorem find?_reverse_filterMap_eq_none_iff :
    ((ds.filterMap extract).reverse.find? fun f => nameOf f == name) = none ↔
      LastFact extract nameOf name ds none := by
  simp only [List.find?_eq_none, List.mem_reverse, List.mem_filterMap, beq_iff_eq, LastFact]
  constructor
  · intro h d hd fact hfact
    exact h fact ⟨d, hd, hfact⟩
  · rintro h fact ⟨d, hd, hfact⟩
    exact h d hd fact hfact

/-- Looking from the end finds the last fact with the name. -/
theorem find?_reverse_filterMap_eq_iff {found : Option α} :
    ((ds.filterMap extract).reverse.find? fun f => nameOf f == name) = found ↔
      LastFact extract nameOf name ds found := by
  cases found with
  | some fact => exact find?_reverse_filterMap_eq_some_iff
  | none => exact find?_reverse_filterMap_eq_none_iff

end lastFact

namespace ModelFacts

/-! ## Facts of lists -/

variable (space : String)

/-- Some facts and others behind them, list by list. -/
def append (f g : ModelFacts) : ModelFacts where
  space := f.space
  enums := f.enums ++ g.enums
  scopes := f.scopes ++ g.scopes
  delegatedTypes := f.delegatedTypes ++ g.delegatedTypes
  securePasswords := f.securePasswords ++ g.securePasswords

theorem ofDeclarations_append (xs ys : List Declaration) :
    ofDeclarations space (xs ++ ys) =
      (ofDeclarations space xs).append (ofDeclarations space ys) := by
  simp only [ofDeclarations, append, List.filterMap_append]

/-- A declaration that gives a fact. -/
def isFact (d : Declaration) : Bool :=
  (EnumFact.extract d).isSome || (ScopeFact.extract d).isSome ||
    (DelegatedTypeFact.extract d).isSome || (SecurePasswordFact.extract d).isSome

theorem filterMap_filter_isFact {α : Type} {extract : Declaration → Option α}
    (h : ∀ d, (extract d).isSome = true → isFact d = true) (ds : List Declaration) :
    (ds.filter isFact).filterMap extract = ds.filterMap extract := by
  rw [List.filterMap_filter]
  refine List.filterMap_congr fun d _ => ?_
  split
  · rfl
  · rename_i hd
    exact (Option.not_isSome_iff_eq_none.1 fun hsome => hd (h d hsome)).symm

theorem ofDeclarations_filter (ds : List Declaration) :
    ofDeclarations space (ds.filter isFact) = ofDeclarations space ds := by
  simp only [ofDeclarations, mk.injEq, true_and]
  refine ⟨filterMap_filter_isFact ?_ ds, filterMap_filter_isFact ?_ ds,
    filterMap_filter_isFact ?_ ds, filterMap_filter_isFact ?_ ds⟩ <;>
  · intro d hd
    simp [isFact, hd]

theorem scope?_append (f g : ModelFacts) (name : String) :
    (f.append g).scope? name = (g.scope? name).or (f.scope? name) := by
  rw [scope?, append, List.reverse_append, List.find?_append]
  rfl

theorem enum?_append (f g : ModelFacts) (name : String) :
    (f.append g).enum? name = (g.enum? name).or (f.enum? name) := by
  rw [enum?, append, List.reverse_append, List.find?_append]
  rfl

end ModelFacts

namespace Expansion

/-! ## A class among the buckets of its file -/

theorem get?_of_bucket_eq {t : Table} {space : String} {b : List Declaration}
    (h : t.bucket space = b) (hne : b ≠ []) : t.get? space = some b := by
  cases hget : t.get? space with
  | none =>
    rw [Table.bucket, hget] at h
    exact absurd h.symm hne
  | some b' =>
    rw [Table.bucket, hget] at h
    exact congrArg some h

/-- In a table that is expanded in any order, what a call of a bucket becomes stands between what
the calls before it and behind it become. -/
theorem bucket_expandInOrder_place (s : Sources) (memory : Memory s.registry) {t : Table}
    {order : List String} (horder : order.Perm t.namespaces) {space : String}
    {pre post : List Declaration} {d : Declaration} (h : t.bucket space = pre ++ d :: post) :
    let known := (expandInOrder s memory (order.takeWhile (· != space)) t).1.1
    let before := expandFrom s space known [] pre
    let here := expandFrom s space before.memory before.visited [d]
    let after := expandFrom s space here.memory here.visited post
    (expandInOrder s memory order t).2.bucket space =
      before.bucket ++ here.bucket ++ after.bucket := by
  have hget := get?_of_bucket_eq h (by simp)
  have hmem : space ∈ order := horder.mem_iff.2 (Table.mem_namespaces_iff.2 ⟨_, hget⟩)
  rw [Table.bucket, get?_expandInOrder s memory (horder.nodup_iff.2 t.nodup_namespaces) hmem, hget]
  exact bucket_expandFrom_place s space _ [] pre post d

end Expansion

namespace Analyzer
open Expansion

/-! ## Facts of an analysis -/

variable (a : Analyzer) (d : Disk) (className : String)

/-- The facts of a class when the buckets of its file are visited in the given order. -/
def factsInOrder (order : List String) (t : Table) : ModelFacts :=
  let name := Name.unroot className
  .ofDeclarations name ((expandInOrder (a.sources d) .fresh order t).2.bucket name)

theorem facts_analyzeTable (h : a.settings.expansion.effectiveEnabled = true) (t : Table) :
    (a.analyzeTable d className t).facts = a.factsInOrder d className t.namespaces t := by
  rw [factsInOrder, ← expand_eq_expandInOrder, analyzeTable, h]
  rfl

/-- An analysis finds the facts of the calls before an include, those that the include brings and
those of the calls behind it, one after another, so a fact is overridden by any later one of its
name. This is so in whatever order the buckets are visited, and what was read on the way is of no
account where spellings make no difference. -/
theorem facts_override_in_order (h : a.settings.expansion.effectiveEnabled = true) (t : Table)
    {pre post : List Declaration} {i : Declaration}
    (hbucket : t.bucket (Name.unroot className) = pre ++ i :: post) :
    let s := a.sources d
    let name := Name.unroot className
    let facts := ModelFacts.ofDeclarations name
    (a.analyzeTable d className t).facts = a.factsInOrder d className t.namespaces t ∧
    (∀ order, order.Perm t.namespaces →
      let memory := (expandInOrder s .fresh (order.takeWhile (· != name)) t).1.1
      let before := expandFrom s name memory [] pre
      let here := expandFrom s name before.memory before.visited [i]
      let after := expandFrom s name here.memory here.visited post
      let found := a.factsInOrder d className order t
      found = ((facts before.bucket).append (facts here.bucket)).append (facts after.bucket) ∧
      (∀ n, found.scope? n = ((facts after.bucket).scope? n).or
        (((facts here.bucket).scope? n).or ((facts before.bucket).scope? n))) ∧
      (∀ n, found.enum? n = ((facts after.bucket).enum? n).or
        (((facts here.bucket).enum? n).or ((facts before.bucket).enum? n))) ∧
      (s.ReadsAlike → before.bucket = (expandFrom s name .fresh [] pre).bucket ∧
        here.bucket = (expandFrom s name .fresh before.visited [i]).bucket ∧
        after.bucket = (expandFrom s name .fresh here.visited post).bucket)) ∧
    ∀ ds, facts (ds.filter ModelFacts.isFact) = facts ds ∧
      (∀ n found, (facts ds).scope? n = found ↔
        LastFact ScopeFact.extract ScopeFact.name n ds found) ∧
      ∀ n found, (facts ds).enum? n = found ↔
        LastFact EnumFact.extract EnumFact.name n ds found := by
  intro s name facts
  refine ⟨facts_analyzeTable a d className h t, fun order horder => ?_, fun ds => ?_⟩
  · intro memory before here after found
    have hexpanded : (expandInOrder s .fresh order t).2.bucket name =
        before.bucket ++ here.bucket ++ after.bucket :=
      bucket_expandInOrder_place s .fresh horder hbucket
    have hfound : found =
        ((facts before.bucket).append (facts here.bucket)).append (facts after.bucket) := by
      rw [← ModelFacts.ofDeclarations_append, ← ModelFacts.ofDeclarations_append, ← hexpanded]
      rfl
    have hm : Faithful s memory :=
      (Reachable.foldl_visit ((.fresh, {}), t) .fresh (order.takeWhile (· != name))).faithful
    have hbefore : Faithful s before.memory := hm.expandFrom name [] pre
    have hhere : Faithful s here.memory := hbefore.expandFrom name before.visited [i]
    refine ⟨hfound, fun n => ?_, fun n => ?_, fun ha => ⟨?_, ?_, ?_⟩⟩
    · rw [hfound, ModelFacts.scope?_append, ModelFacts.scope?_append]
    · rw [hfound, ModelFacts.enum?_append, ModelFacts.enum?_append]
    · exact (expandFrom_congr ha hm (faithful_fresh s) name [] pre).1
    · exact (expandFrom_congr ha hbefore (faithful_fresh s) name before.visited [i]).1
    · exact (expandFrom_congr ha hhere (faithful_fresh s) name here.visited post).1
  · exact ⟨ModelFacts.ofDeclarations_filter name ds,
      fun n found => find?_reverse_filterMap_eq_iff,
      fun n found => find?_reverse_filterMap_eq_iff⟩

/-! ## A scope overridden by a concern -/

def recentFile : File where
  source := .ofString "module Recent\nincluded do\nscope :a\nend\nend\n"
  tree := Syntax.Tree.clean "program" none 0 43 [
    .clean "module" none 0 42 [
      keyword "module" 0 6,
      .clean "constant" (some "name") 7 13 [],
      .clean "body_statement" (some "body") 14 38 [
        .clean "call" none 14 38 [
          .clean "identifier" (some "method") 14 22 [],
          .clean "do_block" (some "block") 23 38 [
            keyword "do" 23 25,
            .clean "body_statement" (some "body") 26 34 [
              .clean "call" none 26 34 [
                .clean "identifier" (some "method") 26 31 [],
                .clean "argument_list" (some "arguments") 32 34 [
                  .clean "simple_symbol" none 32 34 []]]],
            keyword "end" 35 38]]],
      keyword "end" 39 42]]

def recent : Disk := ⟨⟨""⟩, [(["recent.rb"], .file recentFile)]⟩

def recentAnalyzer : Analyzer :=
  ⟨.ofList [⟨"Recent", .moduleBody, some ⟨"/recent.rb"⟩, true⟩], {}⟩

def scopeCall (line : Nat) : Declaration := ⟨none, "scope", [.symbol "a"], none, line⟩

/-- A class with a scope of its own and an include behind it. -/
def hostTable : Table := .ofPairs [("Host", scopeCall 1), ("Host", rootedInclude ["Recent"])]

theorem bodiesIn_recent :
    (recentAnalyzer.sources recent).bodiesIn ⟨"/recent.rb"⟩ "Recent" = [scopeCall 3] := by
  have hopen : recent.open? ⟨"/recent.rb"⟩ = .ok (.file recentFile) :=
    Disk.open?_eq_file [] rfl (by simp) (by decide) (by decide) rfl
  have hreads : recent.Reads 1048576 ⟨"/recent.rb"⟩ (recentFile.program?.get rfl) :=
    ⟨recentFile, hopen, by decide, ⟨_, rfl⟩, rfl⟩
  have hsurvey := Disk.readSurvey_eq_ok_iff.2 ⟨_, hreads, rfl⟩
  have htable : (recentAnalyzer.sources recent).table? ⟨"/recent.rb"⟩ = some _ :=
    congrArg (Option.map Survey.table) (toOption_eq_some_iff.2 hsurvey)
  rw [Sources.bodiesIn, htable]
  rfl

theorem facts_override_in_order_host :
    recentAnalyzer.settings.expansion.effectiveEnabled = true ∧
    hostTable.bucket "Host" = [scopeCall 1, rootedInclude ["Recent"]] ∧
    (recentAnalyzer.analyzeTable recent "Host" hostTable).facts.scope? "a" =
      some ⟨"a", none, 3⟩ := by
  have hbucket : hostTable.bucket "Host" = [scopeCall 1] ++ rootedInclude ["Recent"] :: [] := rfl
  refine ⟨rfl, hbucket, ?_⟩
  obtain ⟨hfacts, horder, -⟩ := facts_override_in_order recentAnalyzer recent "Host" rfl hostTable
    hbucket
  obtain ⟨-, hscope, -⟩ := horder hostTable.namespaces (List.Perm.refl _)
  rw [hfacts, hscope]
  let s := recentAnalyzer.sources recent
  have hmemory : (expandInOrder s .fresh (hostTable.namespaces.takeWhile (· != "Host"))
      hostTable).1.1 = .fresh := rfl
  have hbefore : expandFrom s "Host" .fresh [] [scopeCall 1] = ⟨[scopeCall 1], [], .fresh, {}⟩ :=
    expandFrom_of_none s "Host" .fresh [] rfl
  have hbodies : (takeArguments s "Host" .fresh [] (rootedInclude ["Recent"]).arguments).bodies =
      [scopeCall 3] :=
    (bodies_rootedInclude_fresh "Host" ⟨_, rfl, rfl, rfl⟩ List.not_mem_nil).trans bodiesIn_recent
  have hhere : (expandFrom s "Host" .fresh [] [rootedInclude ["Recent"]]).bucket = [scopeCall 3] :=
    (bucket_expandBucket_include "Host" .fresh rfl (by rw [hbodies]; decide)).trans hbodies
  simp only [show Name.unroot "Host" = "Host" from rfl]
  rw [hmemory, hbefore, hhere, expandFrom_of_none s "Host" _ _ rfl]
  rfl

end Analyzer

end ModelSurvey
