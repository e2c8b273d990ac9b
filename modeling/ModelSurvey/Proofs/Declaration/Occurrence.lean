import ModelSurvey.Declaration.Collect

/-! Where nodes stand in a list of statements. A node's parts are the nodes directly inside it, in
source order. An occurrence is a node with the way that leads to it: the ancestors, and the index
taken at each of them. The listing of all occurrences is in pre-order, which is the lexicographic
order of their places, so it names each of them exactly once. -/
namespace ModelSurvey
set_option autoImplicit false
open Syntax

/-! ## Parts -/

/-- Whether a part is the name of a class or module, or stands elsewhere in its parent. -/
inductive Role where
  | name
  | content
deriving DecidableEq, Repr

namespace Role

def contents (l : List Node) : List (Role × Node) := l.map fun n => (content, n)

end Role

namespace Syntax

def HashElement.nodes : HashElement → List Node
  | .assoc key value => [key, value]
  | .splat value => [value]

def Block.nodes (b : Block) : List Node := b.body

def Call.nodes (c : Call) : List Node :=
  c.receiver.toList ++ c.arguments ++ c.block.toList.flatMap Block.nodes

def Node.parts : Node → List (Role × Node)
  | .array elements => Role.contents elements
  | .hash elements => Role.contents (elements.flatMap HashElement.nodes)
  | .keywordHash elements => Role.contents (elements.flatMap HashElement.nodes)
  | .constantPath scope _ => Role.contents scope.toList
  | .call c => Role.contents c.nodes
  | .lambda b => Role.contents b.nodes
  | .space s => (.name, s.name) :: Role.contents (s.superclass.toList ++ s.body)
  | .other _ children => Role.contents children
  | _ => []

end Syntax

theorem Role.mem_contents {r : Role} {n : Node} {l : List Node} (h : (r, n) ∈ contents l) :
    n ∈ l := by
  obtain ⟨m, hm, he⟩ := List.mem_map.1 h
  cases he
  exact hm

theorem sizeOf_lt_of_mem_elements {n : Node} {l : List HashElement}
    (h : n ∈ l.flatMap HashElement.nodes) : sizeOf n < sizeOf l := by
  obtain ⟨e, he, hn⟩ := List.mem_flatMap.1 h
  have hlt : sizeOf n < sizeOf e := by
    cases e <;> simp only [HashElement.nodes, List.mem_cons, List.not_mem_nil, or_false] at hn
    · rcases hn with rfl | rfl <;> simp only [HashElement.assoc.sizeOf_spec] <;> omega
    · subst hn
      simp only [HashElement.splat.sizeOf_spec]
      omega
  exact Nat.lt_trans hlt (List.sizeOf_lt_of_mem he)

theorem sizeOf_lt_of_mem_block {n : Node} {b : Block} (h : n ∈ b.nodes) : sizeOf n < sizeOf b := by
  obtain ⟨parameters, body⟩ := b
  have hlt : sizeOf n < sizeOf body := List.sizeOf_lt_of_mem h
  simp only [Block.mk.sizeOf_spec]
  omega

theorem sizeOf_lt_of_mem_option {n : Node} {o : Option Node} (h : n ∈ o.toList) :
    sizeOf n < sizeOf o := by
  obtain rfl := Option.mem_toList.1 h
  simp only [Option.some.sizeOf_spec]
  omega

theorem sizeOf_lt_of_mem_call {n : Node} {c : Call} (h : n ∈ c.nodes) : sizeOf n < sizeOf c := by
  obtain ⟨receiver, name, arguments, block, line⟩ := c
  simp only [Call.nodes, List.mem_append, List.mem_flatMap, Option.mem_toList] at h
  simp only [Call.mk.sizeOf_spec]
  rcases h with (h | h) | ⟨b, rfl, h⟩
  · have := sizeOf_lt_of_mem_option (Option.mem_toList.2 h)
    omega
  · have := List.sizeOf_lt_of_mem h
    omega
  · have := sizeOf_lt_of_mem_block h
    simp only [Option.some.sizeOf_spec]
    omega

theorem sizeOf_lt_of_mem_parts {n : Node} {p : Role × Node} (h : p ∈ n.parts) :
    sizeOf p.2 < sizeOf n := by
  obtain ⟨r, m⟩ := p
  cases n with
  | array elements =>
    have := List.sizeOf_lt_of_mem (Role.mem_contents h)
    simp only [Node.array.sizeOf_spec]
    omega
  | hash elements =>
    have := sizeOf_lt_of_mem_elements (Role.mem_contents h)
    simp only [Node.hash.sizeOf_spec]
    omega
  | keywordHash elements =>
    have := sizeOf_lt_of_mem_elements (Role.mem_contents h)
    simp only [Node.keywordHash.sizeOf_spec]
    omega
  | constantPath scope name =>
    have := sizeOf_lt_of_mem_option (Role.mem_contents h)
    simp only [Node.constantPath.sizeOf_spec]
    omega
  | call c =>
    have := sizeOf_lt_of_mem_call (Role.mem_contents h)
    simp only [Node.call.sizeOf_spec]
    omega
  | lambda b =>
    have := sizeOf_lt_of_mem_block (Role.mem_contents h)
    simp only [Node.lambda.sizeOf_spec]
    omega
  | space s =>
    obtain ⟨kind, name, superclass, body, line⟩ := s
    simp only [Node.parts, List.mem_cons, Prod.mk.injEq] at h
    simp only [Node.space.sizeOf_spec, Namespace.mk.sizeOf_spec]
    rcases h with ⟨-, rfl⟩ | h
    · omega
    · rcases List.mem_append.1 (Role.mem_contents h) with h | h
      · have := sizeOf_lt_of_mem_option h
        omega
      · have := List.sizeOf_lt_of_mem h
        omega
  | other kind children =>
    have := List.sizeOf_lt_of_mem (Role.mem_contents h)
    simp only [Node.other.sizeOf_spec]
    omega
  | _ => cases h

theorem Node.induction {motive : Node → Prop}
    (h : ∀ n, (∀ p ∈ n.parts, motive p.2) → motive n) (n : Node) : motive n :=
  h n fun p _ => Node.induction h p.2
termination_by sizeOf n
decreasing_by exact sizeOf_lt_of_mem_parts ‹_›

/-! ## Occurrences -/

/-- One step of the way down: the node that is entered, and by which kind of part. -/
structure Step where
  node : Node
  role : Role

structure Occurrence where
  place : List Nat
  above : List Step
  node : Node

namespace Occurrence

/-- The part of an occurrence's node at an index. -/
def part (o : Occurrence) (i : Nat) (p : Role × Node) : Occurrence :=
  ⟨o.place ++ [i], o.above ++ [⟨o.node, p.1⟩], p.2⟩

/-- An occurrence and all below it. -/
def below (o : Occurrence) : List Occurrence :=
  o :: o.node.parts.zipIdx.attach.flatMap fun e => below (o.part e.1.2 e.1.1)
termination_by sizeOf o.node
decreasing_by exact sizeOf_lt_of_mem_parts (List.fst_mem_of_mem_zipIdx e.2)

theorem below_eq (o : Occurrence) :
    o.below = o :: o.node.parts.zipIdx.flatMap fun e => (o.part e.2 e.1).below := by
  rw [below, List.flatMap_subtype (g := fun e => (o.part e.2 e.1).below) (fun _ _ => rfl),
    List.unattach_attach]

theorem mem_below {o q : Occurrence} :
    q ∈ o.below ↔ q = o ∨ ∃ i p, o.node.parts[i]? = some p ∧ q ∈ (o.part i p).below := by
  rw [below_eq, List.mem_cons, List.mem_flatMap]
  apply or_congr_right
  constructor
  · rintro ⟨⟨p, i⟩, he, hq⟩
    exact ⟨i, p, List.mk_mem_zipIdx_iff_getElem?.1 he, hq⟩
  · rintro ⟨i, p, hp, hq⟩
    exact ⟨(p, i), List.mk_mem_zipIdx_iff_getElem?.2 hp, hq⟩

theorem induction {motive : Occurrence → Prop}
    (h : ∀ o, (∀ i p, o.node.parts[i]? = some p → motive (o.part i p)) → motive o)
    (o : Occurrence) : motive o :=
  h o fun i p _ => induction h (o.part i p)
termination_by sizeOf o.node
decreasing_by exact sizeOf_lt_of_mem_parts (List.mem_of_getElem? ‹_›)

theorem above_isPrefix {o q : Occurrence} (h : q ∈ o.below) : o.above <+: q.above := by
  induction o using induction with
  | h o ih =>
    rcases mem_below.1 h with rfl | ⟨i, p, hp, hq⟩
    · exact List.prefix_rfl
    · exact (List.prefix_append _ _).trans (ih i p hp hq)

theorem place_isPrefix {o q : Occurrence} (h : q ∈ o.below) : o.place <+: q.place := by
  induction o using induction with
  | h o ih =>
    rcases mem_below.1 h with rfl | ⟨i, p, hp, hq⟩
    · exact List.prefix_rfl
    · exact (List.prefix_append _ _).trans (ih i p hp hq)

theorem part_mem_below {o q : Occurrence} (h : q ∈ o.below) {i : Nat} {p : Role × Node}
    (hp : q.node.parts[i]? = some p) : q.part i p ∈ o.below := by
  induction o using induction with
  | h o ih =>
    rcases mem_below.1 h with rfl | ⟨j, r, hr, hq⟩
    · have hself : q.part i p ∈ (q.part i p).below := mem_below.2 (Or.inl rfl)
      exact mem_below.2 (Or.inr ⟨i, p, hp, hself⟩)
    · exact mem_below.2 (Or.inr ⟨j, r, hr, ih j r hr hq⟩)

end Occurrence

/-- What lies at a place in some statements. -/
inductive Occurs (statements : List Node) : Occurrence → Prop where
  | statement {i : Nat} {n : Node} (h : statements[i]? = some n) : Occurs statements ⟨[i], [], n⟩
  | part {o : Occurrence} {i : Nat} {p : Role × Node} (ho : Occurs statements o)
      (h : o.node.parts[i]? = some p) : Occurs statements (o.part i p)

/-- All occurrences in some statements, in pre-order. -/
def occurrences (statements : List Node) : List Occurrence :=
  statements.zipIdx.flatMap fun e => Occurrence.below ⟨[e.2], [], e.1⟩

theorem Occurs.of_mem_below {statements : List Node} {o q : Occurrence} (ho : Occurs statements o)
    (hq : q ∈ o.below) : Occurs statements q := by
  induction o using Occurrence.induction with
  | h o ih =>
    rcases Occurrence.mem_below.1 hq with rfl | ⟨i, p, hp, hq⟩
    · exact ho
    · exact ih i p hp (ho.part hp) hq

theorem mem_occurrences_iff {statements : List Node} {o : Occurrence} :
    o ∈ occurrences statements ↔ Occurs statements o := by
  rw [occurrences, List.mem_flatMap]
  constructor
  · rintro ⟨⟨n, i⟩, he, ho⟩
    exact Occurs.of_mem_below (.statement (List.mk_mem_zipIdx_iff_getElem?.1 he)) ho
  · intro h
    induction h with
    | @statement i n h =>
      exact ⟨(n, i), List.mk_mem_zipIdx_iff_getElem?.2 h, Occurrence.mem_below.2 (Or.inl rfl)⟩
    | part _ hp ih =>
      obtain ⟨e, he, ho⟩ := ih
      exact ⟨e, he, Occurrence.part_mem_below ho hp⟩

/-- A property of the statements that nodes hand on to their parts holds at every occurrence. -/
theorem Occurs.node_of_parts {motive : Node → Prop} {statements : List Node}
    (hstatements : ∀ n ∈ statements, motive n)
    (hparts : ∀ n, motive n → ∀ p ∈ n.parts, motive p.2) {o : Occurrence}
    (ho : Occurs statements o) : motive o.node := by
  induction ho with
  | statement h => exact hstatements _ (List.mem_of_getElem? h)
  | part _ hp ih => exact hparts _ ih _ (List.mem_of_getElem? hp)

/-! ## Pre-order -/

theorem pairwise_zipIdx {α : Type} (l : List α) : l.zipIdx.Pairwise fun a b => a.2 < b.2 := by
  have h : (l.zipIdx.map Prod.snd).Pairwise (· < ·) := by
    rw [List.zipIdx_map_snd]
    exact List.pairwise_lt_range'
  exact List.pairwise_map.1 h

theorem lt_of_isPrefix {l x y : List Nat} {i j : Nat} (h : i < j) (hx : l ++ [i] <+: x)
    (hy : l ++ [j] <+: y) : x < y := by
  obtain ⟨x, rfl⟩ := hx
  obtain ⟨y, rfl⟩ := hy
  rw [List.append_assoc, List.append_assoc]
  exact List.append_left_lt (List.cons_lt_cons_iff.2 (Or.inl h))

theorem pairwise_below (o : Occurrence) : o.below.Pairwise fun q r => q.place < r.place := by
  induction o using Occurrence.induction with
  | h o ih =>
    rw [Occurrence.below_eq, List.pairwise_cons, List.pairwise_flatMap]
    refine ⟨?_, ?_, ?_⟩
    · intro q hq
      obtain ⟨e, -, hq⟩ := List.mem_flatMap.1 hq
      obtain ⟨rest, hrest⟩ := Occurrence.place_isPrefix hq
      have hlt : o.place ++ [] < o.place ++ ([e.2] ++ rest) :=
        List.append_left_lt (List.nil_lt_cons _ _)
      rw [List.append_nil, ← List.append_assoc] at hlt
      exact hrest ▸ hlt
    · intro e he
      exact ih e.2 e.1 (List.mk_mem_zipIdx_iff_getElem?.1 he)
    · refine (pairwise_zipIdx _).imp fun h q hq r hr => ?_
      exact lt_of_isPrefix h (Occurrence.place_isPrefix hq) (Occurrence.place_isPrefix hr)

theorem pairwise_occurrences (statements : List Node) :
    (occurrences statements).Pairwise fun q r => q.place < r.place := by
  rw [occurrences, List.pairwise_flatMap]
  refine ⟨fun e _ => pairwise_below _, (pairwise_zipIdx _).imp fun h q hq r hr => ?_⟩
  exact lt_of_isPrefix (l := []) h (Occurrence.place_isPrefix hq) (Occurrence.place_isPrefix hr)

end ModelSurvey
