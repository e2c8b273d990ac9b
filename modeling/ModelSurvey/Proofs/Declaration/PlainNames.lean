import ModelSurvey.Proofs.Declaration.Exposed

/-! Names made of tokens. A token holds no colon, so colons come in marks only in every name that a
chain of tokens spells. The segments of such a name hold no colon either, and a namespace named by
them needs no unrooting: it never begins with a mark. Segments of this kind can be read off the name
that they are joined to. -/
namespace ModelSurvey
set_option autoImplicit false
open Syntax

/-! ## Colons in marks only -/

namespace Name

inductive Marked : List Char → Prop where
  | nil : Marked []
  | char {c : Char} {cs : List Char} : c ≠ ':' → Marked cs → Marked (c :: cs)
  | mark {cs : List Char} : Marked cs → Marked (':' :: ':' :: cs)

theorem Marked.append {l r : List Char} (hl : Marked l) (hr : Marked r) : Marked (l ++ r) := by
  induction hl with
  | nil => exact hr
  | char hc _ ih => exact .char hc ih
  | mark _ ih => exact .mark ih

theorem marked_of_not_mem {cs : List Char} (h : ':' ∉ cs) : Marked cs := by
  induction cs with
  | nil => exact .nil
  | cons c cs ih =>
    rw [List.mem_cons, not_or] at h
    exact .char (Ne.symm h.1) (ih h.2)

theorem cutMarks_cons {c : Char} (hc : c ≠ ':') (cs : List Char) :
    cutMarks (c :: cs) = Text.consFirst c (cutMarks cs) := by
  rw [cutMarks.eq_def]
  split
  · rename_i h
    cases h
  · rename_i h
    cases h
    exact absurd rfl hc
  · rename_i h
    cases h
    rfl

theorem not_mem_of_mem_cutMarks {cs : List Char} (h : Marked cs) :
    ∀ piece ∈ cutMarks cs, ':' ∉ piece := by
  induction h with
  | nil =>
    intro piece hpiece
    rw [List.mem_singleton.1 hpiece]
    exact List.not_mem_nil
  | @char c cs hc _ ih =>
    rw [cutMarks_cons hc]
    intro piece hpiece
    cases hcut : cutMarks cs with
    | nil =>
      rw [hcut, Text.consFirst] at hpiece
      rw [List.mem_singleton.1 hpiece]
      simpa using Ne.symm hc
    | cons w ws =>
      rw [hcut] at ih hpiece
      rcases List.mem_cons.1 hpiece with rfl | hpiece
      · rw [List.mem_cons, not_or]
        exact ⟨Ne.symm hc, ih w (List.mem_cons_self ..)⟩
      · exact ih piece (List.mem_cons_of_mem w hpiece)
  | mark _ ih =>
    rw [cutMarks]
    intro piece hpiece
    rcases List.mem_cons.1 hpiece with rfl | hpiece
    · exact List.not_mem_nil
    · exact ih piece hpiece

/-- No piece of the name between its marks holds a colon. -/
def Clean (name : String) : Prop := ∀ piece ∈ cutMarks name.toList, ':' ∉ piece

/-- Segments as a namespace has them when its name is spelled by tokens. -/
def Plain (segments : List String) : Prop := ∀ s ∈ segments, s ≠ "" ∧ ':' ∉ s.toList

theorem Clean.plain_segments {name : String} (h : Clean name) : Plain (segments name) := by
  intro s hs
  obtain ⟨piece, hpiece, rfl⟩ := List.mem_map.1 hs
  obtain ⟨hpiece, hne⟩ := List.mem_filter.1 hpiece
  rw [String.toList_ofList]
  refine ⟨?_, h piece hpiece⟩
  intro he
  rw [String.ofList_eq_empty_iff] at he
  simp [he] at hne

theorem dropMarks_cons {c : Char} (hc : c ≠ ':') (cs : List Char) :
    dropMarks (c :: cs) = c :: cs := by
  rw [dropMarks.eq_def]
  split
  · rename_i h
    cases h
    exact absurd rfl hc
  · rfl

/-- A joined name begins with a character of its first segment, so it has no mark in front. -/
theorem exists_toList_join {s : String} {r : List String} (h : Plain (s :: r)) :
    ∃ c cs, c ≠ ':' ∧ (join (s :: r)).toList = c :: cs := by
  obtain ⟨hne, hcolon⟩ := h s (List.mem_cons_self ..)
  obtain ⟨c, cs, hs⟩ := List.exists_cons_of_ne_nil (by simpa using hne : s.toList ≠ [])
  have hc : c ≠ ':' := by
    rintro rfl
    exact hcolon (hs ▸ List.mem_cons_self ..)
  cases r with
  | nil => exact ⟨c, cs, hc, by simp [join, hs]⟩
  | cons t r => exact ⟨c, cs ++ (mark ++ join (t :: r)).toList, hc, by simp [join, hs]⟩

theorem unroot_join {segments : List String} (h : Plain segments) :
    unroot (join segments) = join segments := by
  cases segments with
  | nil => rfl
  | cons s r =>
    obtain ⟨c, rest, hc, hrest⟩ := exists_toList_join h
    rw [unroot, hrest, dropMarks_cons hc, ← hrest, String.ofList_toList]

/-! ## Joining and cutting -/

theorem cutMarks_append_mark {cs : List Char} (h : ':' ∉ cs) (r : List Char) :
    cutMarks (cs ++ ':' :: ':' :: r) = cs :: cutMarks r := by
  induction cs with
  | nil => rw [List.nil_append, cutMarks]
  | cons c cs ih =>
    rw [List.mem_cons, not_or] at h
    rw [List.cons_append, cutMarks_cons (Ne.symm h.1), ih h.2, Text.consFirst]

theorem cutMarks_of_not_mem {cs : List Char} (h : ':' ∉ cs) : cutMarks cs = [cs] := by
  induction cs with
  | nil => rw [cutMarks]
  | cons c cs ih =>
    rw [List.mem_cons, not_or] at h
    rw [cutMarks_cons (Ne.symm h.1), ih h.2, Text.consFirst]

theorem toList_join_cons (s t : String) (r : List String) :
    (join (s :: t :: r)).toList = s.toList ++ ':' :: ':' :: (join (t :: r)).toList := by
  rw [join, String.intercalate_cons_cons, String.toList_append, String.toList_append,
    List.append_assoc]
  rfl

theorem cutMarks_join {s : String} {r : List String} (h : Plain (s :: r)) :
    cutMarks (join (s :: r)).toList = (s :: r).map String.toList := by
  induction r generalizing s with
  | nil =>
    have hjoin : join [s] = s := by simp [join]
    rw [hjoin, cutMarks_of_not_mem (h s (List.mem_cons_self ..)).2]
    rfl
  | cons t r ih =>
    have hrest : Plain (t :: r) := fun u hu => h u (List.mem_cons_of_mem s hu)
    rw [toList_join_cons, cutMarks_append_mark (h s (List.mem_cons_self ..)).2, ih hrest]
    rfl

/-- Cutting gives back the segments that were joined. -/
theorem segments_join {names : List String} (h : Plain names) : segments (join names) = names := by
  cases names with
  | nil => rfl
  | cons s r =>
    have hkept : ((s :: r).map String.toList).filter (!·.isEmpty) = (s :: r).map String.toList := by
      refine List.filter_eq_self.2 fun piece hpiece => ?_
      obtain ⟨name, hname, rfl⟩ := List.mem_map.1 hpiece
      simpa using (h name hname).1
    rw [segments, cutMarks_join h, hkept, List.map_map]
    simp [Function.comp_def]

/-- A mark in front adds no segment. -/
theorem segments_mark_append (name : String) : segments (mark ++ name) = segments name := by
  have hcut : cutMarks (mark ++ name).toList = [] :: cutMarks name.toList := by
    rw [String.toList_append]
    exact cutMarks_append_mark List.not_mem_nil name.toList
  rw [segments, hcut, List.filter_cons_of_neg (by simp), segments]

end Name

/-! ## Names of namespaces -/

namespace Syntax

/-- The tokens that a name consists of. -/
def Node.tokens : Node → List String
  | .constant token => [token]
  | .constantPath none token => [token]
  | .constantPath (some outer) token => outer.tokens ++ [token]
  | .string token => [token]
  | .symbol token => [token]
  | _ => []

theorem marked_of_path? {n : Node} {name : String} (h : n.path? = some name)
    (htokens : ∀ token ∈ n.tokens, ':' ∉ token.toList) : Name.Marked name.toList := by
  fun_induction Node.path? n generalizing name with
  | case1 token =>
    cases h
    exact Name.marked_of_not_mem (htokens _ (by simp [Node.tokens]))
  | case2 token =>
    cases h
    rw [String.toList_append]
    exact .mark (Name.marked_of_not_mem (htokens token (by simp [Node.tokens])))
  | case3 outer token ih =>
    obtain ⟨front, hfront, rfl⟩ := Option.map_eq_some_iff.1 h
    rw [Node.tokens] at htokens
    have hleft := ih hfront fun t ht => htokens t (List.mem_append_left _ ht)
    have hright := Name.marked_of_not_mem (htokens token (by simp))
    rw [String.toList_append, String.toList_append, List.append_assoc]
    exact hleft.append (.mark hright)
  | case4 => cases h

theorem marked_of_name {n : Node} {name : String} (h : n.evaluate.bind Value.name? = some name)
    (htokens : ∀ token ∈ n.tokens, ':' ∉ token.toList) : Name.Marked name.toList := by
  obtain ⟨v, hv, hname⟩ := Option.bind_eq_some_iff.1 h
  cases n with
  | string | symbol | constant =>
    cases hv
    cases hname
    exact Name.marked_of_not_mem (htokens _ (by simp [Node.tokens]))
  | constantPath outer token =>
    rw [Node.evaluate] at hv
    obtain ⟨path, hpath, rfl⟩ := Option.map_eq_some_iff.1 hv
    cases hname
    exact marked_of_path? hpath htokens
  | nil | bool | integer | array | hash | keywordHash =>
    rw [Node.evaluate] at hv
    cases hv
    cases hname
  | call | lambda | space | methodDef | other => simp [Node.evaluate] at hv

end Syntax

/-- No class or module is named by a text with a piece between marks that holds a colon. -/
def CleanNames (statements : List Node) : Prop :=
  ∀ o, Occurs statements o → ∀ s, o.node = .space s →
    ∀ name, s.name.evaluate.bind Value.name? = some name → Name.Clean name

/-- The tokens that name classes and modules hold no colon. -/
def PlainNames (statements : List Node) : Prop :=
  ∀ o, Occurs statements o → ∀ s, o.node = .space s → ∀ token ∈ s.name.tokens, ':' ∉ token.toList

/-- Whether a node, if it is a class or module, is named by tokens without a colon. -/
def Syntax.Node.isPlain : Node → Bool
  | .space s => s.name.tokens.all fun token => !token.toList.contains ':'
  | _ => true

theorem plainNames_iff {statements : List Node} :
    PlainNames statements ↔ (occurrences statements).all (·.node.isPlain) = true := by
  simp only [List.all_eq_true, mem_occurrences_iff, PlainNames]
  refine forall₂_congr fun o _ => ?_
  cases o.node <;> simp [Node.isPlain]

theorem plain_nameSegments {n : Node}
    (h : ∀ name, n.evaluate.bind Value.name? = some name → Name.Clean name) :
    Name.Plain (nameSegments n) := by
  rw [nameSegments]
  split
  · rename_i name hname
    exact (h name hname).plain_segments
  · intro s hs
    cases hs

theorem CleanNames.plain_scope {statements : List Node} (h : CleanNames statements)
    {o : Occurrence} (ho : Occurs statements o) : Name.Plain o.scope := by
  induction ho with
  | statement _ =>
    intro s hs
    cases hs
  | @part o i p ho hp ih =>
    rw [Occurrence.scope_part]
    intro s hs
    rcases List.mem_append.1 hs with hs | hs
    · exact ih s hs
    · rw [Step.segments] at hs
      split at hs
      · rename_i space hspace
        exact plain_nameSegments (h o ho space hspace) s hs
      · cases hs

theorem clean_of_tokens {n : Node} (h : ∀ token ∈ n.tokens, ':' ∉ token.toList) {name : String}
    (hname : n.evaluate.bind Value.name? = some name) : Name.Clean name :=
  Name.not_mem_of_mem_cutMarks (marked_of_name hname h)

theorem PlainNames.clean {statements : List Node} (h : PlainNames statements) :
    CleanNames statements := fun o ho s hs _ => clean_of_tokens (h o ho s hs)

theorem PlainNames.unroot_definition {statements : List Node} (h : PlainNames statements)
    {found : Definition} (hfound : found ∈ (Survey.ofStatements statements).definitions) :
    Name.unroot found.name = found.name := by
  rw [definitions_ofStatements] at hfound
  obtain ⟨o, ho, hdefinition⟩ := List.mem_filterMap.1 hfound
  have hoccurs := mem_occurrences_iff.1 ho
  rw [Occurrence.definition?] at hdefinition
  split at hdefinition
  · rename_i space hspace
    split at hdefinition
    · cases hdefinition
      refine Name.unroot_join fun s hs => ?_
      rcases List.mem_append.1 hs with hs | hs
      · exact h.clean.plain_scope hoccurs s hs
      · exact plain_nameSegments (h.clean o hoccurs space hspace) s hs
    · cases hdefinition
  · cases hdefinition

end ModelSurvey
