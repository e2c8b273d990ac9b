import ModelSurvey.Proofs.Expansion.SharedSource
import ModelSurvey.Proofs.Expansion.Visiting

/-! Expanding a table in any order and after any history. Where spellings make no difference, each
bucket becomes what a fresh run makes of it alone, and the counts add up. Where they do make one, an
earlier run can be chosen so that a later one shows it. -/
namespace ModelSurvey.Expansion
set_option autoImplicit false
open Syntax

/-! ## Sums of counts -/

namespace Stats

def total (l : List Stats) : Stats := l.foldr add {}

theorem total_perm {l l' : List Stats} (h : l.Perm l') : total l = total l' := by
  induction h with
  | nil => rfl
  | cons a _ ih => exact congrArg a.add ih
  | swap a b l =>
    show add b (add a (total l)) = add a (add b (total l))
    simp only [add, Stats.mk.injEq]
    omega
  | trans _ _ ih ih' => exact ih.trans ih'

end Stats

variable {s : Sources}

/-! ## Visits -/

theorem Reachable.foldl_visit (state : (Memory s.registry × Stats) × Table)
    (h : Reachable s state.1.1) (order : List String) :
    Reachable s (order.foldl (visit s) state).1.1 := by
  induction order generalizing state with
  | nil => exact h
  | cons space order ih => exact ih (visit s state space) (h.step space _)

theorem foldl_visit_fresh (ha : s.ReadsAlike) (state : (Memory s.registry × Stats) × Table)
    (hf : Faithful s state.1.1) {order : List String} (horder : order.Nodup) :
    let final := order.foldl (visit s) state
    (∀ space, final.2.get? space =
      if space ∈ order then
        (state.2.get? space).map fun b => (expandBucket s space .fresh b).bucket
      else state.2.get? space) ∧
    final.1.2 = state.1.2.add (Stats.total (order.map fun space =>
      (expandBucket s space .fresh (state.2.bucket space)).stats)) := by
  induction order generalizing state with
  | nil => simp [Stats.total]
  | cons k order ih =>
    obtain ⟨hk, horder⟩ := List.nodup_cons.1 horder
    have hfresh := expandBucket_fresh ha hf k
    obtain ⟨hget, hstats⟩ := ih (visit s state k) (hf.expandFrom k [] _) horder
    dsimp only
    rw [List.foldl_cons]
    refine ⟨fun space => ?_, ?_⟩
    · rw [hget]
      by_cases he : space = k
      · subst he
        simp only [hk, if_false, List.mem_cons_self, if_true, get?_visit_self, hfresh]
      · simp only [List.mem_cons, he, false_or, get?_visit_of_ne s state he]
    · have hbuckets : order.map (fun space =>
          (expandBucket s space .fresh ((visit s state k).2.bucket space)).stats) =
          order.map fun space => (expandBucket s space .fresh (state.2.bucket space)).stats := by
        refine List.map_congr_left fun space hspace => ?_
        have he : space ≠ k := fun he => hk (he ▸ hspace)
        rw [Table.bucket, get?_visit_of_ne s state he, Table.bucket]
      have hvisit : (visit s state k).1.2 =
          state.1.2.add (expandBucket s k .fresh (state.2.bucket k)).stats := by
        rw [← (hfresh _).2]
        rfl
      rw [hstats, hbuckets, hvisit, Stats.add_assoc]
      rfl

theorem expandInOrder_fresh (ha : s.ReadsAlike) {memory : Memory s.registry}
    (hf : Faithful s memory) {t : Table} {order : List String} (h : order.Perm t.namespaces) :
    let expanded := expandInOrder s memory order t
    (∀ space, expanded.2.get? space =
      (t.get? space).map fun b => (expandBucket s space .fresh b).bucket) ∧
    expanded.1.2 = Stats.total (t.namespaces.map fun space =>
      (expandBucket s space .fresh (t.bucket space)).stats) := by
  have hnodup : order.Nodup := h.nodup_iff.2 t.nodup_namespaces
  obtain ⟨hget, hstats⟩ := foldl_visit_fresh ha ((memory, {}), t) hf hnodup
  refine ⟨fun space => ?_, ?_⟩
  · rw [expandInOrder, hget]
    by_cases hspace : space ∈ order
    · rw [if_pos hspace]
    · have hnone : t.get? space = none := by
        cases hb : t.get? space with
        | none => rfl
        | some b => exact absurd (h.mem_iff.2 (Table.mem_namespaces_iff.2 ⟨b, hb⟩)) hspace
      rw [if_neg hspace, hnone]
      rfl
  · rw [expandInOrder, hstats, Stats.zero_add]
    exact Stats.total_perm (h.map _)

/-! ## Histories that show -/

/-- The table with one bucket at the top level. -/
def topTable (d : Declaration) : Table := .ofPairs [("", d)]

theorem stats_expandInOrder_topTable (memory : Memory s.registry) (d : Declaration) :
    (expandInOrder s memory (topTable d).namespaces (topTable d)).1.2 =
      (expandBucket s "" memory [d]).stats := by
  have hnamespaces : (topTable d).namespaces = [""] := rfl
  have hbucket : (topTable d).bucket "" = [d] := rfl
  rw [expandInOrder, hnamespaces, List.foldl_cons, List.foldl_nil, visit, hbucket]
  exact Stats.zero_add _

theorem readsAlike_of_stats
    (h : ∀ memory, Reachable s memory → ∀ t,
      (expandInOrder s memory t.namespaces t).1.2 = Stats.total (t.namespaces.map fun space =>
        (expandBucket s space .fresh (t.bucket space)).stats)) : s.ReadsAlike := by
  intro m n p q hm hn hcomp
  have hlater := h _ (Reachable.fresh.step "" [rootedInclude [m]]) (topTable (rootedInclude [n]))
  have hfresh := h .fresh Reachable.fresh (topTable (rootedInclude [n]))
  rw [← hfresh, stats_expandInOrder_topTable, stats_expandInOrder_topTable] at hlater
  -- Where the counts agree, the two spellings agree on whether there are bodies at all.
  have hzero := spliced_expandBucket_eq_zero_iff "" (i := rootedInclude [n])
    (expandBucket s "" .fresh [rootedInclude [m]]).memory rfl
  rw [hlater, spliced_expandBucket_eq_zero_iff "" .fresh rfl,
    bodies_after_rootedInclude "" hm hn List.not_mem_nil hcomp,
    bodies_rootedInclude_fresh "" hn List.not_mem_nil] at hzero
  exact Sources.bodiesIn_eq hcomp hzero.symm

/-- Expanding the buckets of a table in any order, after any history, gives each of them what a
fresh run gives it alone exactly if spellings make no difference. -/
theorem expansion_forgets_iff_readsAlike (s : Sources) :
    (∀ memory t, expand s true memory t = expandInOrder s memory t.namespaces t) ∧
    (∀ memory, Reachable s memory → ∀ order t, Reachable s (expandInOrder s memory order t).1.1) ∧
    ((∀ memory, Reachable s memory → ∀ t order, order.Perm t.namespaces →
        let expanded := expandInOrder s memory order t
        (∀ space, expanded.2.get? space =
          (t.get? space).map fun b => (expandBucket s space .fresh b).bucket) ∧
        expanded.1.2 = Stats.total (t.namespaces.map fun space =>
          (expandBucket s space .fresh (t.bucket space)).stats)) ↔
      s.ReadsAlike) := by
  refine ⟨expand_eq_expandInOrder s, fun memory hm order t => ?_, fun h => ?_, fun ha => ?_⟩
  · exact Reachable.foldl_visit ((memory, {}), t) hm order
  · exact readsAlike_of_stats fun memory hm t => (h memory hm t t.namespaces (List.Perm.refl _)).2
  · intro memory hm t order horder
    exact expandInOrder_fresh ha hm.faithful horder

/-- The second concern has a body in a fresh run, and none after the first one was included. -/
theorem slashed_remembers :
    let known := (expandBucket slashed "" .fresh [rootedInclude ["Broken"]]).memory
    let later := expandBucket slashed "" known [rootedInclude ["Included"]]
    let alone := expandBucket slashed "" .fresh [rootedInclude ["Included"]]
    Reachable slashed known ∧ later.bucket = [] ∧ alone.bucket.map (·.name) = ["x"] := by
  have hlater := bodies_after_rootedInclude "" concernAt_broken concernAt_included
    List.not_mem_nil components_slashed
  rw [bodiesIn_broken] at hlater
  refine ⟨Reachable.fresh.step "" _, ?_, names_expandBucket_included⟩
  rw [bucket_expandBucket_include "" _ rfl (by rw [hlater]; simp), hlater]

end ModelSurvey.Expansion
