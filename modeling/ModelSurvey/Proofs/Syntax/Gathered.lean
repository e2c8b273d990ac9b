import Mathlib.Data.List.Forall2
import ModelSurvey.Proofs.Syntax.Lowered

/-! Gathered arguments. The keyword arguments of a list become one keyword hash that stands where
the first of them stood, and the other arguments keep their order. What counts is whether an
element can be made of a child, so a pair without a key neither adds to the hash nor places it. -/
namespace ModelSurvey.Syntax
set_option autoImplicit false

def Node.isKeywordHash : Node → Bool
  | .keywordHash _ => true
  | _ => false

/-! ## Gathering -/

namespace Argument

def positionals (l : List Argument) : List Node := l.filterMap positional?

def keywords (l : List Argument) : List HashElement := l.filterMap keyword?

variable {l : List Argument} (n : Node) (e : HashElement) (r : List Argument)

theorem gather_positional : gather (positional n :: r) = n :: gather r := rfl

theorem gather_keyword :
    gather (keyword e :: r) = .keywordHash (e :: keywords r) :: positionals r := rfl

theorem positionals_positional : positionals (positional n :: r) = n :: positionals r :=
  List.filterMap_cons_some rfl

theorem positionals_keyword : positionals (keyword e :: r) = positionals r :=
  List.filterMap_cons_none rfl

theorem keywords_positional : keywords (positional n :: r) = keywords r :=
  List.filterMap_cons_none rfl

theorem keywords_keyword : keywords (keyword e :: r) = e :: keywords r :=
  List.filterMap_cons_some rfl

theorem gather_of_keywords_eq_nil (h : keywords l = []) : gather l = positionals l := by
  induction l with
  | nil => rfl
  | cons a r ih =>
    cases a with
    | positional n =>
      rw [keywords_positional] at h
      rw [gather_positional, positionals_positional, ih h]
    | keyword e =>
      rw [keywords_keyword] at h
      cases h

/-- Before the first keyword argument all arguments are positional. -/
theorem gather_split (h : keywords l ≠ []) :
    ∃ before after, positionals l = before ++ after ∧
      before.length = l.findIdx (fun a => a.keyword?.isSome) ∧
      gather l = before ++ .keywordHash (keywords l) :: after := by
  induction l with
  | nil => exact absurd rfl h
  | cons a r ih =>
    cases a with
    | positional n =>
      rw [keywords_positional] at h ⊢
      obtain ⟨before, after, hpositionals, hlength, hgather⟩ := ih h
      refine ⟨n :: before, after, ?_, ?_, ?_⟩
      · rw [positionals_positional, hpositionals, List.cons_append]
      · rw [List.length_cons, hlength, List.findIdx_cons]
        rfl
      · rw [gather_positional, hgather, List.cons_append]
    | keyword e =>
      rw [positionals_keyword, keywords_keyword, gather_keyword]
      exact ⟨[], positionals r, rfl, rfl, rfl⟩

theorem getElem?_gather (h : keywords l ≠ []) :
    (gather l)[l.findIdx fun a => a.keyword?.isSome]? = some (.keywordHash (keywords l)) := by
  obtain ⟨before, after, -, hlength, hgather⟩ := gather_split h
  rw [hgather, ← hlength, List.getElem?_append_right (Nat.le_refl _), Nat.sub_self,
    List.getElem?_cons_zero]

theorem mem_gather {n : Node} (h : n ∈ gather l) :
    n ∈ positionals l ∨ keywords l ≠ [] ∧ n = .keywordHash (keywords l) := by
  by_cases hnil : keywords l = []
  · rw [gather_of_keywords_eq_nil hnil] at h
    exact Or.inl h
  · obtain ⟨before, after, hpositionals, -, hgather⟩ := gather_split hnil
    rw [hgather, List.mem_append, List.mem_cons] at h
    rw [hpositionals, List.mem_append]
    rcases h with h | h | h
    · exact Or.inl (Or.inl h)
    · exact Or.inr ⟨hnil, h⟩
    · exact Or.inl (Or.inr h)

section

variable (hplain : ∀ n ∈ positionals l, n.isKeywordHash = false)

include hplain

/-- Without the keyword hash the other arguments are left as they were. -/
theorem filter_gather : (gather l).filter (!·.isKeywordHash) = positionals l := by
  have hself : (positionals l).filter (!·.isKeywordHash) = positionals l :=
    List.filter_eq_self.2 fun n hn => by rw [hplain n hn, Bool.not_false]
  by_cases hnil : keywords l = []
  · rw [gather_of_keywords_eq_nil hnil, hself]
  · obtain ⟨before, after, hpositionals, -, hgather⟩ := gather_split hnil
    rw [hgather, List.filter_append, List.filter_cons_of_neg (by simp [Node.isKeywordHash]),
      ← List.filter_append, ← hpositionals, hself]

theorem filter_isKeywordHash_gather :
    (gather l).filter Node.isKeywordHash =
      if keywords l = [] then [] else [.keywordHash (keywords l)] := by
  have hnone : ∀ m : List Node, (∀ n ∈ m, n ∈ positionals l) →
      m.filter Node.isKeywordHash = [] := fun m hm =>
    List.filter_eq_nil_iff.2 fun n hn => by simp [hplain n (hm n hn)]
  by_cases hnil : keywords l = []
  · rw [if_pos hnil, gather_of_keywords_eq_nil hnil, hnone _ fun _ hn => hn]
  · obtain ⟨before, after, hpositionals, -, hgather⟩ := gather_split hnil
    rw [hpositionals] at hnone
    rw [if_neg hnil, hgather, List.filter_append, List.filter_cons_of_pos rfl,
      hnone before fun _ hn => List.mem_append_left _ hn,
      hnone after fun _ hn => List.mem_append_right _ hn, List.nil_append]

end

end Argument

/-! ## Elements -/

namespace Tree

/-- Whether a child of an argument list is gathered with the keyword arguments. -/
def isKeyword (t : Tree) : Bool := t.kind == "pair" || t.kind == "hash_splat_argument"

/-- Whether an element of a hash can be made of a node: a pair needs a key. -/
def isUsable (t : Tree) : Bool :=
  t.kind == "hash_splat_argument" || (t.kind == "pair" && (t.field? "key").isSome)

theorem isKeyword_of_isUsable {t : Tree} (h : t.isUsable = true) : t.isKeyword = true := by
  rw [isUsable, Bool.or_eq_true, Bool.and_eq_true] at h
  rw [isKeyword, Bool.or_eq_true]
  exact h.symm.imp_left And.left

end Tree

variable (s : Source)

/-- The element of a hash that a node stands for. The key is the first one; it is a label if a
colon follows it directly. -/
inductive ElementOf (t : Tree) : HashElement → Prop where
  | pair {before after : List Tree} {key : Tree} (hkind : t.kind = "pair")
    (hchildren : t.children = before ++ key :: after) (hkey : key.isField "key" = true)
    (hfirst : ∀ u ∈ before, u.isField "key" = false) :
    ElementOf t (.assoc (labelKey (after.head?.any (·.kind == ":")) (lower s key))
      (((t.field? "value").map (lower s)).getD (.other "implicit" [])))
  | splat (hkind : t.kind = "hash_splat_argument") :
    ElementOf t (.splat (.other "hash_splat_argument" (t.parts.map (lower s))))

theorem isSome_lowerKey (cs : List Tree) :
    (lowerKey s cs).isSome = (cs.find? (Tree.isField "key")).isSome := by
  induction cs with
  | nil => rfl
  | cons t r ih =>
    rw [lowerKey, List.find?_cons]
    cases t.isField "key" with
    | true => rfl
    | false => exact ih

theorem lowerKey_eq_some {cs : List Tree} {n : Node} (h : lowerKey s cs = some n) :
    ∃ before key after, cs = before ++ key :: after ∧ key.isField "key" = true ∧
      (∀ u ∈ before, u.isField "key" = false) ∧
      n = labelKey (after.head?.any (·.kind == ":")) (lower s key) := by
  induction cs with
  | nil =>
    rw [lowerKey] at h
    cases h
  | cons t r ih =>
    rw [lowerKey] at h
    cases hkey : t.isField "key" with
    | true =>
      rw [hkey, if_pos rfl] at h
      exact ⟨[], t, r, rfl, hkey, fun u hu => absurd hu List.not_mem_nil,
        (Option.some.inj h).symm⟩
    | false =>
      rw [hkey, if_neg Bool.false_ne_true] at h
      obtain ⟨before, key, after, rfl, hk, hfirst, hn⟩ := ih h
      exact ⟨t :: before, key, after, rfl, hk, List.forall_mem_cons.2 ⟨hkey, hfirst⟩, hn⟩

theorem elementOf_of_lowerElement {t : Tree} {e : HashElement} (h : lowerElement s t = some e) :
    ElementOf s t e := by
  obtain ⟨a, cs⟩ := t
  rw [lowerElement] at h
  split at h
  · rename_i hform
    obtain ⟨key, hkey, rfl⟩ := Option.map_eq_some_iff.1 h
    obtain ⟨before, k, after, hcs, hk, hfirst, rfl⟩ := lowerKey_eq_some s hkey
    rw [lowerField_eq]
    exact .pair (Form.ofKind_eq_pair_iff.1 hform) hcs hk hfirst
  · rename_i hform
    have hkind := Form.ofKind_eq_hashSplat_iff.1 hform
    rw [lowerParts_eq, hkind] at h
    obtain rfl := Option.some.inj h
    exact .splat hkind
  · cases h

theorem isSome_lowerElement (t : Tree) : (lowerElement s t).isSome = t.isUsable := by
  obtain ⟨a, cs⟩ := t
  rw [lowerElement, Tree.isUsable, Tree.field?]
  simp only [Tree.kind, Tree.label, Tree.children]
  split
  · rename_i hform
    rw [Option.isSome_map, isSome_lowerKey, Form.ofKind_eq_pair_iff.1 hform]
    rfl
  · rename_i hform
    rw [Form.ofKind_eq_hashSplat_iff.1 hform]
    rfl
  · rename_i hpair hsplat
    have hp : a.kind ≠ "pair" := fun h => hpair (Form.ofKind_eq_pair_iff.2 h)
    have hs : a.kind ≠ "hash_splat_argument" :=
      fun h => hsplat (Form.ofKind_eq_hashSplat_iff.2 h)
    simp [hp, hs]

/-- One element for each usable node, in order. -/
theorem forall₂_elementOf (ts : List Tree) :
    List.Forall₂ (ElementOf s) (ts.filter Tree.isUsable) (ts.filterMap (lowerElement s)) := by
  induction ts with
  | nil => exact .nil
  | cons t r ih =>
    have hsome := isSome_lowerElement s t
    rw [List.filter_cons, List.filterMap_cons, ← hsome]
    cases he : lowerElement s t with
    | none => exact ih
    | some e => exact .cons (elementOf_of_lowerElement s he) ih

/-! ## Argument lists -/

/-- The argument that a child of an argument list stands for. -/
def argument? (t : Tree) : Option Argument :=
  if t.isKeyword then (lowerElement s t).map .keyword else some (.positional (lower s t))

theorem lowerArgumentList_eq (cs : List Tree) :
    lowerArgumentList s cs = (cs.filter Tree.isPart).filterMap (argument? s) := by
  induction cs with
  | nil => rw [lowerArgumentList, List.filter_nil, List.filterMap_nil]
  | cons t r ih =>
    rw [lowerArgumentList, ih, List.filter_cons]
    cases t.isPart with
    | false => rfl
    | true =>
      rw [if_pos rfl, List.filterMap_cons, argument?, Tree.isKeyword]
      split
      · rename_i h
        cases h
      · split
        · rename_i hform
          rw [Form.ofKind_eq_pair_iff.1 hform]
          cases lowerElement s t <;> rfl
        · rename_i hform
          rw [Form.ofKind_eq_hashSplat_iff.1 hform]
          cases lowerElement s t <;> rfl
        · rename_i hpair hsplat
          have hp : t.kind ≠ "pair" := fun h => hpair (Form.ofKind_eq_pair_iff.2 h)
          have hs : t.kind ≠ "hash_splat_argument" :=
            fun h => hsplat (Form.ofKind_eq_hashSplat_iff.2 h)
          simp [hp, hs]

variable {s}

theorem argument?_of_isUsable {t : Tree} (h : t.isUsable = true) :
    ∃ e, lowerElement s t = some e ∧ argument? s t = some (.keyword e) := by
  obtain ⟨e, he⟩ := Option.isSome_iff_exists.1 ((isSome_lowerElement s t).trans h)
  refine ⟨e, he, ?_⟩
  rw [argument?, if_pos (Tree.isKeyword_of_isUsable h), he, Option.map_some]

theorem lowerElement_of_not_isUsable {t : Tree} (h : t.isUsable = false) :
    lowerElement s t = none :=
  Option.isSome_eq_false_iff.1 ((isSome_lowerElement s t).trans h) |> Option.isNone_iff_eq_none.1

theorem argument?_of_not_isUsable {t : Tree} (h : t.isUsable = false) :
    argument? s t = if t.isKeyword then none else some (.positional (lower s t)) := by
  rw [argument?, lowerElement_of_not_isUsable h, Option.map_none]

variable (s)

theorem positionals_arguments (ts : List Tree) :
    Argument.positionals (ts.filterMap (argument? s)) =
      (ts.filter (!·.isKeyword)).map (lower s) := by
  induction ts with
  | nil => rfl
  | cons t r ih =>
    rw [List.filterMap_cons, List.filter_cons, argument?]
    cases t.isKeyword with
    | false => exact congrArg (lower s t :: ·) ih
    | true =>
      cases lowerElement s t with
      | none => exact ih
      | some e => exact ih

theorem keywords_arguments (ts : List Tree) :
    Argument.keywords (ts.filterMap (argument? s)) = ts.filterMap (lowerElement s) := by
  induction ts with
  | nil => rfl
  | cons t r ih =>
    cases husable : t.isUsable with
    | true =>
      obtain ⟨e, he, ha⟩ := argument?_of_isUsable (s := s) husable
      rw [List.filterMap_cons_some ha, Argument.keywords_keyword, List.filterMap_cons_some he, ih]
    | false =>
      rw [List.filterMap_cons, argument?_of_not_isUsable husable,
        List.filterMap_cons_none (lowerElement_of_not_isUsable husable)]
      cases t.isKeyword <;> exact ih

theorem findIdx_arguments (ts : List Tree) :
    (ts.filterMap (argument? s)).findIdx (fun a => a.keyword?.isSome) =
      (ts.takeWhile (!·.isUsable)).countP (!·.isKeyword) := by
  induction ts with
  | nil => rfl
  | cons t r ih =>
    cases husable : t.isUsable with
    | true =>
      obtain ⟨e, -, ha⟩ := argument?_of_isUsable (s := s) husable
      rw [List.filterMap_cons_some ha, List.takeWhile_cons_of_neg (by simp [husable])]
      rfl
    | false =>
      rw [List.takeWhile_cons_of_pos (by simp [husable]), List.filterMap_cons,
        argument?_of_not_isUsable husable, List.countP_cons]
      cases t.isKeyword with
      | true => exact ih
      | false =>
        rw [if_neg Bool.false_ne_true, List.findIdx_cons, ih]
        rfl

/-! ## Gathered arguments -/

theorem isKeywordHash_of_isAtom {n : Node} (h : n.isAtom = true) : n.isKeywordHash = false := by
  cases n with
  | keywordHash elements => cases h
  | _ => rfl

theorem isKeywordHash_lower (t : Tree) : (lower s t).isKeywordHash = false := by
  have h := lowered s t
  generalize lower s t = n at h
  cases h with
  | atom h => exact isKeywordHash_of_isAtom h
  | _ => rfl

/-- The arguments of a call whose argument list is `list`: the children that are no keyword
arguments, in order, and one keyword hash of the usable ones, if there are any, with as many
positional arguments before it as there are before the first of these. -/
structure Gathered (list : Tree) (arguments : List Node) : Prop where
  positional : arguments.filter (!·.isKeywordHash) =
    (list.parts.filter (!·.isKeyword)).map (lower s)
  keyword : ∃ elements,
    List.Forall₂ (ElementOf s) (list.parts.filter Tree.isUsable) elements ∧
    arguments.filter Node.isKeywordHash =
      (if elements = [] then [] else [.keywordHash elements]) ∧
    (elements ≠ [] → arguments[(list.parts.takeWhile (!·.isUsable)).countP (!·.isKeyword)]? =
      some (.keywordHash elements))

theorem gathered (list : Tree) :
    Gathered s list (Argument.gather (lowerArgumentList s list.children)) := by
  have hplain : ∀ n ∈ Argument.positionals (list.parts.filterMap (argument? s)),
      n.isKeywordHash = false := by
    intro n hn
    rw [positionals_arguments] at hn
    obtain ⟨t, -, rfl⟩ := List.mem_map.1 hn
    exact isKeywordHash_lower s t
  have hkeywords := keywords_arguments s list.parts
  rw [lowerArgumentList_eq, ← Tree.parts]
  refine ⟨?_, list.parts.filterMap (lowerElement s), forall₂_elementOf s _, ?_, fun hne => ?_⟩
  · rw [Argument.filter_gather hplain, positionals_arguments]
  · rw [Argument.filter_isKeywordHash_gather hplain, hkeywords]
  · rw [← hkeywords] at hne ⊢
    rw [← findIdx_arguments s]
    exact Argument.getElem?_gather hne

end ModelSurvey.Syntax
