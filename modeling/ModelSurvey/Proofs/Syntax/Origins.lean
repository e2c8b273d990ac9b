import ModelSurvey.Proofs.Declaration.Occurrence
import ModelSurvey.Proofs.Syntax.Gathered
import ModelSurvey.Proofs.Syntax.SourceOrder

/-! Where the nodes of a lowered program come from. Each is what a single node of the tree was
lowered to, or nothing lies in it, as in labels and in what stands for an omitted value; the one
exception are the keyword hashes, which calls gather from their arguments. All nodes inside a node
of either origin have such an origin again. -/
namespace ModelSurvey.Syntax
set_option autoImplicit false

/-! ## Origins -/

/-- A node that lowering makes of a single node of the tree, or one that nothing lies in. -/
inductive Sourced (s : Source) (root : Tree) : Node → Prop where
  | tree {t : Tree} (ht : t ∈ root.nodes) : Sourced s root (lower s t)
  | identifier {t : Tree} (ht : t ∈ root.nodes) (hkind : t.kind = "identifier") :
    Sourced s root (bareCall s t.label)
  | atom {n : Node} (h : n.isAtom = true) : Sourced s root n

/-- A keyword hash as calls gather them. -/
inductive Keywords (s : Source) (root : Tree) : Node → Prop where
  | gathered {elements : List HashElement} (hne : elements ≠ [])
    (h : ∀ e ∈ elements, ∃ t ∈ root.nodes, ElementOf s t e) :
    Keywords s root (.keywordHash elements)

variable {s : Source} {root : Tree}

theorem Sourced.isKeywordHash {n : Node} (h : Sourced s root n) : n.isKeywordHash = false := by
  cases h with
  | tree ht => exact isKeywordHash_lower s _
  | identifier ht hkind => rfl
  | atom h => exact isKeywordHash_of_isAtom h

theorem Sourced.labelKey {n : Node} (h : Sourced s root n) (beforeColon : Bool) :
    Sourced s root (labelKey beforeColon n) := by
  cases n with
  | string text =>
    rw [Syntax.labelKey]
    split
    · exact .atom rfl
    · exact h
  | _ => exact h

/-! ## Children -/

section

variable {cs : List Tree} (h : ∀ t ∈ cs, t ∈ root.nodes)

include h

theorem sourced_lowerParts : ∀ n ∈ lowerParts s cs, Sourced s root n := by
  intro n hn
  rw [lowerParts_eq] at hn
  obtain ⟨t, ht, rfl⟩ := List.mem_map.1 hn
  exact .tree (h t (List.mem_filter.1 ht).1)

theorem sourced_lowerField {f : String} {n : Node} (hn : lowerField s f cs = some n) :
    Sourced s root n := by
  rw [lowerField_eq] at hn
  obtain ⟨t, ht, rfl⟩ := Option.map_eq_some_iff.1 hn
  exact .tree (h t (List.mem_of_find?_eq_some ht))

theorem sourced_lowerFirst {n : Node} (hn : lowerFirst s cs = some n) : Sourced s root n := by
  rw [lowerFirst_eq] at hn
  obtain ⟨t, ht, rfl⟩ := Option.map_eq_some_iff.1 hn
  exact .tree (h t (List.mem_of_find?_eq_some ht))

theorem sourced_lowerWriter {receiver : Node} {method : String}
    (hn : lowerWriter s cs = some (receiver, method)) : Sourced s root receiver := by
  obtain ⟨left, hleft, hreceiver⟩ := lowerWriter_eq_some s hn
  exact sourced_lowerField (Tree.children_mem_nodes (h left hleft)) hreceiver

end

theorem sourced_lowerStatements : ∀ {cs : List Tree}, (∀ t ∈ cs, t ∈ root.nodes) →
    ∀ n ∈ lowerStatements s cs, Sourced s root n
  | [], _, n, hn => by
    rw [lowerStatements] at hn
    cases hn
  | .node a cs :: r, h, n, hn => by
    obtain ⟨ht, hr⟩ := List.forall_mem_cons.1 h
    have hcs : ∀ u ∈ cs, u ∈ root.nodes := Tree.children_mem_nodes ht
    rw [lowerStatements] at hn
    split at hn
    · exact sourced_lowerStatements hr n hn
    · split at hn
      · exact (List.mem_append.1 hn).elim (sourced_lowerStatements hcs n)
          (sourced_lowerStatements hr n)
      · exact (List.mem_append.1 hn).elim (sourced_lowerStatements hcs n)
          (sourced_lowerStatements hr n)
      · rename_i hform
        rcases List.mem_cons.1 hn with rfl | hn
        · exact .identifier ht (Form.kind_of_identifier hform)
        · exact sourced_lowerStatements hr n hn
      · rcases List.mem_cons.1 hn with rfl | hn
        · exact .tree ht
        · exact sourced_lowerStatements hr n hn

theorem sourced_lowerBlock : ∀ {cs : List Tree}, (∀ t ∈ cs, t ∈ root.nodes) →
    ∀ n ∈ (BlockPart.assemble (lowerBlock s cs)).body, Sourced s root n
  | [], _, n, hn => by
    rw [lowerBlock] at hn
    cases hn
  | .node a cs :: r, h, n, hn => by
    obtain ⟨ht, hr⟩ := List.forall_mem_cons.1 h
    have hcs : ∀ u ∈ cs, u ∈ root.nodes := Tree.children_mem_nodes ht
    have hrest := sourced_lowerBlock hr n
    have hinner := sourced_lowerBlock hcs n
    rw [BlockPart.body_assemble] at hn hrest
    rw [lowerBlock] at hn
    split at hn
    · exact hrest hn
    · split at hn <;> rw [List.flatMap_cons, List.mem_append] at hn
      · exact hn.elim (fun h => absurd h List.not_mem_nil) hrest
      · exact hn.elim (sourced_lowerStatements hcs n) hrest
      · exact hn.elim (sourced_lowerStatements hcs n) hrest
      · exact hn.elim hinner hrest
      · rename_i hform
        refine hn.elim (fun hn => ?_) hrest
        obtain rfl := List.mem_singleton.1 hn
        exact .identifier ht (Form.kind_of_identifier hform)
      · refine hn.elim (fun hn => ?_) hrest
        obtain rfl := List.mem_singleton.1 hn
        exact .tree ht

/-! ## Classes and modules -/

/-- The nodes directly inside a class or module. -/
def Namespace.members (x : Namespace) : List Node := x.name :: (x.superclass.toList ++ x.body)

namespace NamespacePart

def members : NamespacePart → List Node
  | .name n => [n]
  | .superclass n => n.toList
  | .statements l => l

theorem mem_members_addTo {x : Namespace} {p : NamespacePart} {n : Node}
    (h : n ∈ (addTo x p).members) : n ∈ x.members ∨ n ∈ p.members := by
  cases p <;> simp only [addTo, members, Namespace.members, List.mem_cons, List.mem_append,
    List.not_mem_nil, or_false] at h ⊢ <;> tauto

theorem mem_members_foldl {l : List NamespacePart} {x : Namespace} {n : Node}
    (h : n ∈ (l.foldl addTo x).members) : n ∈ x.members ∨ ∃ p ∈ l, n ∈ p.members := by
  induction l generalizing x with
  | nil => exact Or.inl h
  | cons p l ih =>
    rw [List.foldl_cons] at h
    rcases ih h with h | ⟨q, hq, hn⟩
    · exact (mem_members_addTo h).imp_right fun hn => ⟨p, List.mem_cons_self .., hn⟩
    · exact Or.inr ⟨q, List.mem_cons_of_mem _ hq, hn⟩

theorem kind_foldl (l : List NamespacePart) (x : Namespace) :
    (l.foldl addTo x).kind = x.kind := by
  induction l generalizing x with
  | nil => rfl
  | cons p l ih =>
    rw [List.foldl_cons, ih]
    cases p <;> rfl

end NamespacePart

theorem sourced_lowerNamespace {cs : List Tree} (h : ∀ t ∈ cs, t ∈ root.nodes) :
    ∀ p ∈ lowerNamespace s cs, ∀ n ∈ p.members, Sourced s root n := by
  induction cs with
  | nil =>
    intro p hp
    rw [lowerNamespace] at hp
    cases hp
  | cons t r ih =>
    obtain ⟨ht, hr⟩ := List.forall_mem_cons.1 h
    obtain ⟨a, cs⟩ := t
    have hcs : ∀ u ∈ cs, u ∈ root.nodes := Tree.children_mem_nodes ht
    have hself : ∀ n ∈ [lower s (.node a cs)], Sourced s root n := fun n hn =>
      List.mem_singleton.1 hn ▸ .tree ht
    rw [lowerNamespace]
    split
    · exact List.forall_mem_cons.2 ⟨hself, ih hr⟩
    · split
      · refine List.forall_mem_cons.2 ⟨fun n hn => ?_, ih hr⟩
        exact sourced_lowerFirst hcs (Option.mem_toList.1 hn)
      · split
        · exact ih hr
        · split
          · exact List.forall_mem_cons.2 ⟨sourced_lowerStatements hcs, ih hr⟩
          · rename_i hform
            refine List.forall_mem_cons.2 ⟨fun n hn => ?_, ih hr⟩
            obtain rfl := List.mem_singleton.1 hn
            exact .identifier ht (Form.kind_of_identifier hform)
          · exact List.forall_mem_cons.2 ⟨hself, ih hr⟩

theorem sourced_members {cs : List Tree} (h : ∀ t ∈ cs, t ∈ root.nodes) (kind : NamespaceKind)
    (line : Nat) :
    ∀ n ∈ (NamespacePart.assemble kind line (lowerNamespace s cs)).members, Sourced s root n := by
  intro n hn
  rcases NamespacePart.mem_members_foldl hn with hn | ⟨p, hp, hn⟩
  · obtain rfl := List.mem_singleton.1 hn
    exact .atom rfl
  · exact sourced_lowerNamespace h p hp n hn

/-! ## Elements -/

theorem lower_hashSplat {t : Tree} (h : t.kind = "hash_splat_argument") :
    lower s t = .other "hash_splat_argument" (t.parts.map (lower s)) := by
  obtain ⟨a, cs⟩ := t
  have hkind : a.kind = "hash_splat_argument" := h
  simp only [lower, lowerParts_eq, hkind]
  rfl

theorem ElementOf.sourced {t : Tree} {e : HashElement} (h : ElementOf s t e)
    (ht : t ∈ root.nodes) : ∀ n ∈ e.nodes, Sourced s root n := by
  cases h with
  | pair hkind hchildren hkey hfirst =>
    rename_i before after key
    have hmem : key ∈ t.children := by
      rw [hchildren]
      exact List.mem_append_right _ (List.mem_cons_self ..)
    refine List.forall_mem_cons.2 ⟨?_, fun n hn => ?_⟩
    · exact Sourced.labelKey (.tree (Tree.children_mem_nodes ht key hmem)) _
    · obtain rfl := List.mem_singleton.1 hn
      cases hvalue : t.field? "value" with
      | none => exact .atom rfl
      | some v => exact .tree (Tree.children_mem_nodes ht v (List.mem_of_find?_eq_some hvalue))
  | splat hkind =>
    intro n hn
    obtain rfl := List.mem_singleton.1 hn
    rw [← lower_hashSplat hkind]
    exact .tree ht

theorem elementOf_filterMap {ts : List Tree} (h : ∀ t ∈ ts, t ∈ root.nodes) :
    ∀ e ∈ ts.filterMap (lowerElement s), ∃ t ∈ root.nodes, ElementOf s t e := by
  intro e he
  obtain ⟨t, ht, he⟩ := List.mem_filterMap.1 he
  exact ⟨t, h t ht, elementOf_of_lowerElement s he⟩

theorem sourced_elements {elements : List HashElement}
    (h : ∀ e ∈ elements, ∃ t ∈ root.nodes, ElementOf s t e) :
    ∀ n ∈ elements.flatMap HashElement.nodes, Sourced s root n := by
  intro n hn
  obtain ⟨e, he, hn⟩ := List.mem_flatMap.1 hn
  obtain ⟨t, ht, helement⟩ := h e he
  exact helement.sourced ht n hn

/-! ## Calls -/

theorem sourced_lowerArguments {cs : List Tree} (h : ∀ t ∈ cs, t ∈ root.nodes) :
    ∀ n ∈ Argument.gather (lowerArguments s cs), Sourced s root n ∨ Keywords s root n := by
  intro n hn
  rw [lowerArguments_eq] at hn
  cases hfind : cs.find? (Tree.isField "arguments") with
  | none =>
    rw [hfind] at hn
    cases hn
  | some list =>
    rw [hfind, Option.elim_some, lowerArgumentList_eq] at hn
    have hlist := h list (List.mem_of_find?_eq_some hfind)
    have hparts := Tree.parts_mem_nodes hlist
    refine (Argument.mem_gather hn).imp (fun hn => ?_) ?_
    · rw [positionals_arguments] at hn
      obtain ⟨t, ht, rfl⟩ := List.mem_map.1 hn
      exact .tree (hparts t (List.mem_filter.1 ht).1)
    · rw [keywords_arguments]
      rintro ⟨hne, rfl⟩
      exact .gathered hne (elementOf_filterMap hparts)

variable (s root) in
/-- The origins of the nodes in a call. -/
structure SourcedCall (c : Call) : Prop where
  receiver : ∀ n ∈ c.receiver.toList, Sourced s root n
  arguments : ∀ n ∈ c.arguments, Sourced s root n ∨ Keywords s root n
  block : ∀ n ∈ c.block.toList.flatMap Block.nodes, Sourced s root n

theorem Sourced.call {c : Call} (h : Sourced s root (.call c)) : SourcedCall s root c := by
  generalize hn : Node.call c = n at h
  cases h with
  | @tree t ht =>
    have hview := lowered s t
    have hcs := Tree.children_mem_nodes ht
    rw [← hn] at hview
    cases hview with
    | atom h => cases h
    | call hkind name =>
      refine ⟨fun n hn => ?_, sourced_lowerArguments hcs, fun n hn => ?_⟩
      · exact sourced_lowerField hcs (Option.mem_toList.1 hn)
      · obtain ⟨b, hb, hn⟩ := List.mem_flatMap.1 hn
        rw [Option.mem_toList, lowerBlockField_eq] at hb
        obtain ⟨block, hblock, rfl⟩ := Option.map_eq_some_iff.1 hb
        have hmem := hcs block (List.mem_of_find?_eq_some hblock)
        exact sourced_lowerBlock (Tree.children_mem_nodes hmem) n hn
    | writer hkind hleft hright =>
      refine ⟨fun n hn => ?_, fun n hn => Or.inl ?_, fun n hn => absurd hn List.not_mem_nil⟩
      · obtain rfl := List.mem_singleton.1 hn
        exact sourced_lowerWriter hcs hleft
      · obtain rfl := List.mem_singleton.1 hn
        exact sourced_lowerField hcs hright
  | identifier ht hkind =>
    cases hn
    exact ⟨fun n hn => absurd hn List.not_mem_nil, fun n hn => absurd hn List.not_mem_nil,
      fun n hn => absurd hn List.not_mem_nil⟩
  | atom h =>
    subst hn
    cases h

/-! ## Parts -/

theorem parts_of_isAtom {n : Node} (h : n.isAtom = true) : n.parts = [] := by
  cases n with
  | other kind children =>
    obtain rfl := List.isEmpty_iff.1 h
    rfl
  | nil | bool | integer | string | symbol | constant | methodDef => rfl
  | _ => cases h

theorem sourced_contents {l : List Node} (h : ∀ n ∈ l, Sourced s root n) :
    ∀ p ∈ Role.contents l, Sourced s root p.2 := by
  rintro ⟨r, n⟩ hp
  exact h n (Role.mem_contents hp)

/-- All parts of a node but the arguments of calls have the same kind of origin as the node. -/
theorem Sourced.parts {n : Node} (h : Sourced s root n) (hcall : n.call? = none) :
    ∀ p ∈ n.parts, Sourced s root p.2 := by
  cases h with
  | @tree t ht =>
    have hview := lowered s t
    have hcs := Tree.children_mem_nodes ht
    generalize lower s t = n at hview hcall
    cases hview with
    | atom h =>
      rw [parts_of_isAtom h]
      exact fun p hp => absurd hp List.not_mem_nil
    | other => exact sourced_contents (sourced_lowerParts hcs)
    | container => exact sourced_contents (sourced_lowerStatements hcs)
    | array => exact sourced_contents (sourced_lowerParts hcs)
    | hash =>
      rw [lowerElements_eq]
      exact sourced_contents (sourced_elements (elementOf_filterMap (Tree.parts_mem_nodes ht)))
    | path name =>
      exact sourced_contents fun n hn => sourced_lowerField hcs (Option.mem_toList.1 hn)
    | call hkind name => cases hcall
    | writer hkind hleft hright => cases hcall
    | lambda => exact sourced_contents (sourced_lowerBlock hcs)
    | space hkind =>
      obtain ⟨hname, hrest⟩ := List.forall_mem_cons.1 (sourced_members hcs _ (s.line t.label))
      exact List.forall_mem_cons.2 ⟨hname, sourced_contents hrest⟩
  | identifier ht hkind => cases hcall
  | atom h =>
    rw [parts_of_isAtom h]
    exact fun p hp => absurd hp List.not_mem_nil

theorem Keywords.parts {n : Node} (h : Keywords s root n) :
    ∀ p ∈ n.parts, Sourced s root p.2 := by
  obtain ⟨hne, h⟩ := h
  exact sourced_contents (sourced_elements h)

end ModelSurvey.Syntax
