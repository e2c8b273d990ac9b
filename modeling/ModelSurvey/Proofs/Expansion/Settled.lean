import ModelSurvey.Proofs.Expansion.Rounds
import ModelSurvey.Proofs.Expansion.Visiting

/-! Settled tables, in which no bucket holds an include. Expansion ends in one whatever includes
what and in whatever order the buckets are visited, and it keeps the namespaces. A settled table has
no round left to run, so expanding it changes nothing, with any registry and any memory. -/
namespace ModelSurvey.Expansion
set_option autoImplicit false
open Syntax

theorem isInclude_eq_false_iff {d : Declaration} : isInclude d = false ↔ d.name ≠ "include" := by
  simp [isInclude]

variable (s : Sources)

/-! ## Buckets -/

theorem name_ne_of_mem_expandBucket (space : String) (memory : Memory s.registry)
    (bucket : List Declaration) :
    ∀ d ∈ (expandBucket s space memory bucket).bucket, d.name ≠ "include" := fun d hd =>
  isInclude_eq_false_iff.1 (isInclude_of_mem_expandFrom s space memory [] bucket d hd)

theorem round_expandBucket (space : String) (memory : Memory s.registry)
    (bucket : List Declaration) :
    round s space (expandBucket s space memory bucket) = none := by
  have hnone : splitInclude (expandBucket s space memory bucket).bucket = none :=
    splitInclude_eq_none_iff.2 (isInclude_of_mem_expandFrom s space memory [] bucket)
  simp only [round, hnone]

theorem rounds_expandBucket (space : String) (memory : Memory s.registry)
    (bucket : List Declaration) :
    Relation.ReflTransGen (fun a b => round s space a = some b) ⟨bucket, [], memory, {}⟩
      (expandBucket s space memory bucket) := by
  have h := rounds_expandFrom s space memory [] bucket {}
  rwa [Stats.zero_add] at h

theorem expandBucket_of_settled (space : String) (memory : Memory s.registry)
    {bucket : List Declaration} (h : ∀ d ∈ bucket, d.name ≠ "include") :
    expandBucket s space memory bucket = ⟨bucket, [], memory, {}⟩ := by
  have hnone : splitInclude bucket = none :=
    splitInclude_eq_none_iff.2 fun d hd => isInclude_eq_false_iff.2 (h d hd)
  exact expandFrom_of_none s space memory [] hnone

/-! ## Tables -/

/-- No bucket of a table holds an include. -/
def Settled (t : Table) : Prop := ∀ space, ∀ d ∈ t.bucket space, d.name ≠ "include"

theorem namespaces_foldl_visit (state : (Memory s.registry × Stats) × Table) (order : List String) :
    (order.foldl (visit s) state).2.namespaces = state.2.namespaces := by
  induction order generalizing state with
  | nil => rfl
  | cons space order ih => rw [List.foldl_cons, ih, namespaces_visit]

theorem bucket_visit_settled (state : (Memory s.registry × Stats) × Table) (space : String) :
    ∀ d ∈ (visit s state space).2.bucket space, d.name ≠ "include" := by
  intro d hd
  rw [Table.bucket, get?_visit_self] at hd
  cases hb : state.2.get? space with
  | none => simp [hb] at hd
  | some b =>
    rw [hb, Option.map_some, Option.getD_some] at hd
    exact name_ne_of_mem_expandBucket s space state.1.1 b d hd

/-- A bucket is settled from its first visit on. -/
theorem bucket_foldl_visit_settled (state : (Memory s.registry × Stats) × Table)
    (order : List String) (space : String)
    (h : space ∈ order ∨ ∀ d ∈ state.2.bucket space, d.name ≠ "include") :
    ∀ d ∈ (order.foldl (visit s) state).2.bucket space, d.name ≠ "include" := by
  induction order generalizing state with
  | nil =>
    rcases h with h | h
    · cases h
    · exact h
  | cons k order ih =>
    rw [List.foldl_cons]
    apply ih
    by_cases he : space = k
    · subst he
      exact Or.inr (bucket_visit_settled s state space)
    · have hkept : (visit s state k).2.bucket space = state.2.bucket space := by
        rw [Table.bucket, get?_visit_of_ne s state he, Table.bucket]
      rw [hkept]
      rcases h with h | h
      · exact Or.inl ((List.mem_cons.1 h).resolve_left he)
      · exact Or.inr h

theorem settled_expandInOrder (memory : Memory s.registry) {order : List String} {t : Table}
    (h : order.Perm t.namespaces) : Settled (expandInOrder s memory order t).2 := by
  intro space
  refine bucket_foldl_visit_settled s ((memory, {}), t) order space ?_
  cases hb : t.get? space with
  | none => exact Or.inr (by simp [Table.bucket, hb])
  | some b => exact Or.inl (h.mem_iff.2 (Table.mem_namespaces_iff.2 ⟨b, hb⟩))

theorem visit_of_settled (state : Memory s.registry × Stats) {t : Table} (h : Settled t)
    (space : String) : visit s (state, t) space = (state, t) := by
  have hbucket := expandBucket_of_settled s space state.1 (h space)
  have htable : (t.modify space fun _ => t.bucket space) = t := by
    refine Table.ext_get? fun other => ?_
    by_cases he : other = space
    · subst he
      rw [Table.get?_modify_self]
      cases hb : t.get? other with
      | none => rfl
      | some b => simp [Table.bucket, hb]
    · exact Table.get?_modify_of_ne t _ he
  simp only [visit, hbucket, Stats.add_zero, htable]

theorem expandInOrder_of_settled (memory : Memory s.registry) {t : Table} (h : Settled t)
    (order : List String) : expandInOrder s memory order t = ((memory, {}), t) := by
  rw [expandInOrder]
  induction order with
  | nil => rfl
  | cons space order ih => rw [List.foldl_cons, visit_of_settled s _ h, ih]

theorem expand_of_settled (enabled : Bool) (memory : Memory s.registry) {t : Table}
    (h : Settled t) : expand s enabled memory t = ((memory, {}), t) := by
  cases enabled with
  | false => rfl
  | true => rw [expand_eq_expandInOrder, expandInOrder_of_settled s memory h]

/-- Expanding ends whatever includes what, with a settled table over the same namespaces. -/
theorem expansion_settles (memory : Memory s.registry) :
    (∀ space, WellFounded fun b a : Outcome s.registry => round s space a = some b) ∧
    (∀ space bucket,
      Relation.ReflTransGen (fun a b => round s space a = some b) ⟨bucket, [], memory, {}⟩
        (expandBucket s space memory bucket) ∧
      round s space (expandBucket s space memory bucket) = none ∧
      ∀ d ∈ (expandBucket s space memory bucket).bucket, d.name ≠ "include") ∧
    (∀ t, expand s true memory t = expandInOrder s memory t.namespaces t) ∧
    ∀ t order, order.Perm t.namespaces →
      let expanded := (expandInOrder s memory order t).2
      expanded.namespaces = t.namespaces ∧
      (∀ space, ∀ d ∈ expanded.bucket space, d.name ≠ "include") ∧
      ∀ (later : Sources) (known : Memory later.registry),
        (∀ enabled, expand later enabled known expanded = ((known, {}), expanded)) ∧
        ∀ again, expandInOrder later known again expanded = ((known, {}), expanded) := by
  refine ⟨round_wellFounded s, fun space bucket => ⟨rounds_expandBucket s space memory bucket,
    round_expandBucket s space memory bucket, name_ne_of_mem_expandBucket s space memory bucket⟩,
    expand_eq_expandInOrder s memory, fun t order horder => ?_⟩
  have hsettled := settled_expandInOrder s memory horder
  exact ⟨namespaces_foldl_visit s ((memory, {}), t) order, hsettled, fun later known =>
    ⟨fun enabled => expand_of_settled later enabled known hsettled,
      expandInOrder_of_settled later known hsettled⟩⟩

end ModelSurvey.Expansion
