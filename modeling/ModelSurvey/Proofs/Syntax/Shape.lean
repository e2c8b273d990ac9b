import ModelSurvey.Proofs.Syntax.Origins

/-! The shape of lowered programs. What a single node is lowered to is known, and every node of a
program has its origin in one, so the shape holds wherever a node is found: keyword hashes stand in
argument lists only, calls and their arguments are those of a node of the tree, splats are kept as
they are, and classes and modules are told apart by the tree. -/
namespace ModelSurvey.Syntax
set_option autoImplicit false

/-! ## Places of keyword hashes -/

/-- An occurrence that is one of the arguments of a call. -/
def IsArgument (statements : List Node) (o : Occurrence) : Prop :=
  ∃ q c i, Occurs statements q ∧ q.node = .call c ∧ c.arguments[i]? = some o.node ∧
    o = q.part (c.receiver.toList.length + i) (.content, o.node)

variable {s : Source} {root : Tree}

/-- A part of a call is an argument, or has its origin in a single node. -/
theorem SourcedCall.part {c : Call} (h : SourcedCall s root c) {j : Nat} {p : Role × Node}
    (hp : (Node.call c).parts[j]? = some p) :
    Sourced s root p.2 ∨ Keywords s root p.2 ∧
      ∃ i, j = c.receiver.toList.length + i ∧ c.arguments[i]? = some p.2 ∧ p.1 = .content := by
  obtain ⟨n, hn, rfl⟩ := Option.map_eq_some_iff.1 (List.getElem?_map .. ▸ hp)
  rw [Call.nodes, List.append_assoc] at hn
  rcases Nat.lt_or_ge j c.receiver.toList.length with hj | hj
  · rw [List.getElem?_append_left hj] at hn
    exact Or.inl (h.receiver n (List.mem_of_getElem? hn))
  · rw [List.getElem?_append_right hj] at hn
    rcases Nat.lt_or_ge (j - c.receiver.toList.length) c.arguments.length with hi | hi
    · rw [List.getElem?_append_left hi] at hn
      refine (h.arguments n (List.mem_of_getElem? hn)).imp_right fun hkeywords => ?_
      exact ⟨hkeywords, _, (Nat.add_sub_cancel' hj).symm, hn, rfl⟩
    · rw [List.getElem?_append_right hi] at hn
      exact Or.inl (h.block n (List.mem_of_getElem? hn))

theorem occurs_origin {o : Occurrence} (ho : Occurs (Program.ofTree s root).statements o) :
    Sourced s root o.node ∨
      Keywords s root o.node ∧ IsArgument (Program.ofTree s root).statements o := by
  induction ho with
  | statement h =>
    have hchildren := Tree.children_mem_nodes (Tree.self_mem_nodes root)
    exact Or.inl (sourced_lowerStatements hchildren _ (List.mem_of_getElem? h))
  | @part q j p hq hp ih =>
    rcases ih with hsourced | ⟨hkeywords, -⟩
    · cases hcall : q.node.call? with
      | none => exact Or.inl (hsourced.parts hcall p (List.mem_of_getElem? hp))
      | some c =>
        have hnode : q.node = .call c := Node.eq_call_of_call? hcall
        rw [hnode] at hsourced hp
        refine (hsourced.call.part hp).imp_right ?_
        rintro ⟨hkeywords, i, rfl, hi, hrole⟩
        refine ⟨hkeywords, q, c, i, hq, hnode, hi, ?_⟩
        rw [← hrole]
        rfl
    -- What lies in a keyword hash comes from single nodes again, so none stands in another.
    · exact Or.inl (hkeywords.parts p (List.mem_of_getElem? hp))

/-! ## Calls -/

/-- The calls that a node of the tree can be lowered to. -/
inductive CallFrom (s : Source) (t : Tree) : Call → Prop where
  | identifier (hkind : t.kind = "identifier") :
    CallFrom s t (.bare (s.text t.label) (s.line t.label))
  | written {c : Call} (hkind : t.kind = "call" ∨ t.kind = "method_call")
    (hlower : lower s t = .call c) (hline : c.line = s.line t.label)
    (hlist : ∀ list, t.field? "arguments" = some list → Gathered s list c.arguments)
    (hnone : t.field? "arguments" = none → c.arguments = []) : CallFrom s t c
  | writer {receiver value : Node} {method : String} (hkind : t.kind = "assignment")
    (hlower : lower s t =
      .call ⟨some receiver, method ++ "=", [value], none, s.line t.label⟩) :
    CallFrom s t ⟨some receiver, method ++ "=", [value], none, s.line t.label⟩

theorem callFrom_of_lower {t : Tree} {c : Call} (h : lower s t = .call c) : CallFrom s t c := by
  have hview := lowered s t
  rw [h] at hview
  cases hview with
  | atom h => cases h
  | call hkind name =>
    refine .written hkind h rfl (fun list hlist => ?_) fun hnone => ?_
    · have hfind : t.children.find? (Tree.isField "arguments") = some list := hlist
      rw [lowerArguments_eq, hfind]
      exact gathered s list
    · have hfind : t.children.find? (Tree.isField "arguments") = none := hnone
      rw [lowerArguments_eq, hfind]
      rfl
  | writer hkind hleft hright => exact .writer hkind h

theorem exists_lower_call {t : Tree} (h : t.kind = "call" ∨ t.kind = "method_call") :
    ∃ c, lower s t = .call c ∧ CallFrom s t c := by
  obtain ⟨a, cs⟩ := t
  have hform : Form.ofKind a.kind = .call := by
    rcases h with h | h
    · exact congrArg Form.ofKind h
    · exact congrArg Form.ofKind h
  have hcall : ∃ c, lower s (.node a cs) = .call c := by
    simp only [lower, hform]
    exact ⟨_, rfl⟩
  obtain ⟨c, hc⟩ := hcall
  exact ⟨c, hc, callFrom_of_lower hc⟩

theorem Gathered.countP_le {list : Tree} {arguments : List Node}
    (h : Gathered s list arguments) : arguments.countP Node.isKeywordHash ≤ 1 := by
  obtain ⟨elements, -, hkeywords, -⟩ := h.keyword
  rw [List.countP_eq_length_filter, hkeywords]
  split
  · exact Nat.zero_le 1
  · exact Nat.le_refl 1

namespace CallFrom

variable {t : Tree} {c : Call}

theorem line_eq (h : CallFrom s t c) : c.line = s.line t.label := by
  cases h with
  | written hkind hlower hline hlist hnone => exact hline
  | _ => rfl

theorem countP_le (h : CallFrom s t c) : c.arguments.countP Node.isKeywordHash ≤ 1 := by
  cases h with
  | identifier hkind => exact Nat.zero_le 1
  | written hkind hlower hline hlist hnone =>
    cases harguments : t.field? "arguments" with
    | none =>
      rw [hnone harguments]
      exact Nat.zero_le 1
    | some list => exact (hlist list harguments).countP_le
  | writer hkind hlower => exact List.countP_le_length

end CallFrom

theorem Sourced.callFrom {c : Call} (h : Sourced s root (.call c)) :
    ∃ t ∈ root.nodes, CallFrom s t c := by
  generalize hn : Node.call c = n at h
  cases h with
  | @tree t ht => exact ⟨t, ht, callFrom_of_lower hn.symm⟩
  | @identifier t ht hkind =>
    cases hn
    exact ⟨t, ht, .identifier hkind⟩
  | atom h =>
    subst hn
    cases h

/-! ## Shapes -/

theorem one_le_line (s : Source) (a : Label) : 1 ≤ s.line a := Nat.le_add_left 1 _

def Node.elements : Node → List HashElement
  | .hash elements => elements
  | .keywordHash elements => elements
  | _ => []

/-- The shape of a lowered program at an occurrence. -/
structure WellShaped (s : Source) (root : Tree) (o : Occurrence) : Prop where
  keywordHash : ∀ elements, o.node = .keywordHash elements →
    elements ≠ [] ∧ IsArgument (Program.ofTree s root).statements o
  call : ∀ c, o.node = .call c →
    1 ≤ c.line ∧ c.arguments.countP Node.isKeywordHash ≤ 1 ∧
      (∃ t ∈ root.nodes, CallFrom s t c) ∧ ∀ t, lower s t = .call c → CallFrom s t c
  splat : ∀ value, HashElement.splat value ∈ o.node.elements →
    ∃ children, value = .other "hash_splat_argument" children
  space : ∀ x, o.node = .space x →
    1 ≤ x.line ∧ ∃ t ∈ root.nodes, lower s t = .space x ∧ t.kind = x.kind.word

theorem ElementOf.splat_eq {t : Tree} {value : Node} (h : ElementOf s t (.splat value)) :
    ∃ children, value = .other "hash_splat_argument" children := by
  cases h with
  | splat hkind => exact ⟨_, rfl⟩

theorem elements_of_isAtom {n : Node} (h : n.isAtom = true) : n.elements = [] := by
  cases n with
  | hash | keywordHash => cases h
  | _ => rfl

theorem Sourced.elementOf {n : Node} (h : Sourced s root n) :
    ∀ e ∈ n.elements, ∃ t ∈ root.nodes, ElementOf s t e := by
  cases h with
  | @tree t ht =>
    have hview := lowered s t
    generalize lower s t = n at hview
    cases hview with
    | atom h =>
      rw [elements_of_isAtom h]
      exact fun e he => absurd he List.not_mem_nil
    | hash =>
      rw [lowerElements_eq]
      exact elementOf_filterMap (Tree.parts_mem_nodes ht)
    | _ => exact fun e he => absurd he List.not_mem_nil
  | identifier ht hkind => exact fun e he => absurd he List.not_mem_nil
  | atom h =>
    rw [elements_of_isAtom h]
    exact fun e he => absurd he List.not_mem_nil

theorem exists_lower_space {t : Tree} {kind : NamespaceKind} (h : t.kind = kind.word) :
    ∃ x, lower s t = .space x ∧ x.kind = kind := by
  obtain ⟨a, cs⟩ := t
  cases kind with
  | classBody =>
    have hform : Form.ofKind a.kind = .classBody := congrArg Form.ofKind h
    simp only [lower, hform]
    exact ⟨_, rfl, NamespacePart.kind_foldl _ _⟩
  | moduleBody =>
    have hform : Form.ofKind a.kind = .moduleBody := congrArg Form.ofKind h
    simp only [lower, hform]
    exact ⟨_, rfl, NamespacePart.kind_foldl _ _⟩

theorem Sourced.space {x : Namespace} (h : Sourced s root (.space x)) :
    1 ≤ x.line ∧ ∃ t ∈ root.nodes, lower s t = .space x ∧ t.kind = x.kind.word := by
  generalize hn : Node.space x = n at h
  cases h with
  | @tree t ht =>
    have hview := lowered s t
    rw [← hn] at hview
    cases hview with
    | atom h => cases h
    | space hkind =>
      refine ⟨?_, t, ht, rfl, ?_⟩
      · rw [NamespacePart.assemble, NamespacePart.line_foldl]
        exact one_le_line s _
      · rw [NamespacePart.assemble, NamespacePart.kind_foldl]
        exact hkind
  | identifier ht hkind => cases hn
  | atom h =>
    subst hn
    cases h

theorem Sourced.wellShaped {o : Occurrence} (h : Sourced s root o.node) :
    WellShaped s root o := by
  refine ⟨fun elements hnode => ?_, fun c hnode => ?_, fun value hvalue => ?_, fun x hnode => ?_⟩
  · have hfalse := h.isKeywordHash
    rw [hnode] at hfalse
    cases hfalse
  · rw [hnode] at h
    obtain ⟨t, ht, hfrom⟩ := h.callFrom
    refine ⟨?_, hfrom.countP_le, ⟨t, ht, hfrom⟩, fun u hu => callFrom_of_lower hu⟩
    rw [hfrom.line_eq]
    exact one_le_line s _
  · obtain ⟨t, -, helement⟩ := h.elementOf _ hvalue
    exact helement.splat_eq
  · rw [hnode] at h
    exact h.space

theorem Keywords.wellShaped {o : Occurrence} (h : Keywords s root o.node)
    (hargument : IsArgument (Program.ofTree s root).statements o) : WellShaped s root o := by
  generalize hn : o.node = n at h
  obtain ⟨hne, helements⟩ := h
  refine ⟨fun elements hnode => ?_, fun c hnode => ?_, fun value hvalue => ?_, fun x hnode => ?_⟩
  · rw [hn] at hnode
    cases hnode
    exact ⟨hne, hargument⟩
  · rw [hn] at hnode
    cases hnode
  · rw [hn] at hvalue
    obtain ⟨t, -, helement⟩ := helements _ hvalue
    exact helement.splat_eq
  · rw [hn] at hnode
    cases hnode

/-- Calls, classes and modules are lowered to such, and every node of a lowered program, wherever
it stands, has the shape that lowering gives it. -/
theorem lowered_program_shape (s : Source) (root : Tree) :
    (∀ t : Tree, t.kind = "call" ∨ t.kind = "method_call" →
      ∃ c, lower s t = .call c ∧ CallFrom s t c) ∧
    (∀ (t : Tree) (kind : NamespaceKind), t.kind = kind.word →
      ∃ x, lower s t = .space x ∧ x.kind = kind) ∧
    ∀ o, Occurs (Program.ofTree s root).statements o → WellShaped s root o := by
  refine ⟨fun t => exists_lower_call, fun t kind => exists_lower_space, fun o ho => ?_⟩
  rcases occurs_origin ho with hsourced | ⟨hkeywords, hargument⟩
  · exact hsourced.wellShaped
  · exact hkeywords.wellShaped hargument

/-! ## A call with arguments of both kinds -/

def mixedArguments : Tree :=
  .clean "program" none 0 18 [
    .clean "call" none 0 17 [
      .clean "identifier" (some "method") 0 1 [],
      .clean "argument_list" (some "arguments") 2 17 [
        .clean "integer" none 2 3 [],
        .clean "pair" none 5 9 [
          .clean "hash_key_symbol" (some "key") 5 6 [],
          .clean "integer" (some "value") 8 9 []],
        .clean "integer" none 11 12 [],
        .clean "hash_splat_argument" none 14 17 [.clean "identifier" none 16 17 []]]]]

def mixedSource : Source := .ofString "f 1, a: 2, 3, **b\n"

/-- The splat goes into the hash of the pair before it, after the first positional argument. -/
theorem lowered_program_shape_mixedArguments :
    ∃ o, Occurs (Program.ofTree mixedSource mixedArguments).statements o ∧ o.place = [0, 1] ∧
      o.node.kind = "keyword_hash" ∧ o.node.elements.length = 2 ∧
      WellShaped mixedSource mixedArguments o := by
  have hcall : 0 < (Program.ofTree mixedSource mixedArguments).statements.length := by
    decide +kernel
  have hpart : 1 < (Program.ofTree mixedSource mixedArguments).statements[0].parts.length := by
    decide +kernel +revert
  have hkeywords :
      let n := (Program.ofTree mixedSource mixedArguments).statements[0].parts[1].2
      n.kind = "keyword_hash" ∧ n.elements.length = 2 := by
    decide +kernel +revert
  have ho := (Occurs.statement (List.getElem?_eq_getElem hcall)).part
    (List.getElem?_eq_getElem hpart)
  exact ⟨_, ho, rfl, hkeywords.1, hkeywords.2, (lowered_program_shape _ _).2.2 _ ho⟩

end ModelSurvey.Syntax
