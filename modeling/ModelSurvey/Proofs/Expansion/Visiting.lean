import ModelSurvey.Expansion.Bucket

/-! Visiting the buckets of a table in any order. Each visit expands one bucket in place, with what
the visits before it have learnt. Expanding a table visits its namespaces in ascending order. -/
namespace ModelSurvey.Expansion
set_option autoImplicit false
open Syntax

variable (s : Sources)

/-- Expands the bucket of one namespace in place. -/
def visit (state : (Memory s.registry × Stats) × Table) (space : String) :
    (Memory s.registry × Stats) × Table :=
  let o := expandBucket s space state.1.1 (state.2.bucket space)
  ((o.memory, state.1.2.add o.stats), state.2.modify space fun _ => o.bucket)

/-- Expands the buckets of the listed namespaces, one after the other. -/
def expandInOrder (memory : Memory s.registry) (order : List String) (t : Table) :
    (Memory s.registry × Stats) × Table := order.foldl (visit s) ((memory, {}), t)

/-! ## One visit -/

@[simp] theorem namespaces_visit (state : (Memory s.registry × Stats) × Table) (space : String) :
    (visit s state space).2.namespaces = state.2.namespaces := by
  simp only [visit, Table.namespaces_modify]

theorem get?_visit_self (state : (Memory s.registry × Stats) × Table) (space : String) :
    (visit s state space).2.get? space =
      (state.2.get? space).map fun b => (expandBucket s space state.1.1 b).bucket := by
  rw [visit, Table.get?_modify_self]
  cases h : state.2.get? space with
  | none => rfl
  | some b => simp only [Option.map_some, Table.bucket, h, Option.getD_some]

theorem get?_visit_of_ne (state : (Memory s.registry × Stats) × Table) {space other : String}
    (h : other ≠ space) : (visit s state space).2.get? other = state.2.get? other :=
  Table.get?_modify_of_ne _ _ h

/-! ## A bucket among others -/

theorem get?_foldl_visit_of_not_mem (state : (Memory s.registry × Stats) × Table)
    {order : List String} {space : String} (h : space ∉ order) :
    (order.foldl (visit s) state).2.get? space = state.2.get? space := by
  induction order generalizing state with
  | nil => rfl
  | cons k order ih =>
    rw [List.mem_cons, not_or] at h
    rw [List.foldl_cons, ih _ h.2, get?_visit_of_ne s state h.1]

/-- A bucket is expanded with what was learnt from those visited before it. -/
theorem get?_expandInOrder (memory : Memory s.registry) {order : List String}
    (hnodup : order.Nodup) {space : String} (h : space ∈ order) (t : Table) :
    (expandInOrder s memory order t).2.get? space = (t.get? space).map fun b =>
      (expandBucket s space
        (expandInOrder s memory (order.takeWhile (· != space)) t).1.1 b).bucket := by
  obtain ⟨earlier, later, rfl⟩ := List.append_of_mem h
  obtain ⟨-, hlater, hdisjoint⟩ := List.nodup_append.1 hnodup
  have hearlier : space ∉ earlier := fun hmem => hdisjoint space hmem space (by simp) rfl
  have htake : (earlier ++ space :: later).takeWhile (· != space) = earlier := by
    rw [List.takeWhile_append_of_pos, List.takeWhile_cons_of_neg (by simp), List.append_nil]
    intro k hk
    exact bne_iff_ne.2 fun he => hearlier (he ▸ hk)
  rw [htake, expandInOrder, List.foldl_append, List.foldl_cons,
    get?_foldl_visit_of_not_mem s _ (List.nodup_cons.1 hlater).1, get?_visit_self,
    get?_foldl_visit_of_not_mem s _ hearlier]
  rfl

/-! ## Ascending order -/

theorem foldl_visit_suffix (state : Memory s.registry × Stats)
    (l r : List (String × List Declaration)) (t : Table) (h : t.toList = l ++ r) :
    let expanded := Entries.mapAccum (fun state space bucket =>
      let o := expandBucket s space state.1 bucket
      ((o.memory, Stats.add state.2 o.stats), o.bucket)) state r
    let visited := (Entries.keys r).foldl (visit s) (state, t)
    visited.1 = expanded.1 ∧ visited.2.toList = l ++ expanded.2 := by
  -- The entries of `l` are those already visited; those of `r` are still as they were.
  induction r generalizing state l t with
  | nil => exact ⟨rfl, h⟩
  | cons e r ih =>
    obtain ⟨space, bucket⟩ := e
    have hb : t.bucket space = bucket := by
      have hget : t.get? space = some bucket := NameMap.get?_eq_some_iff.2 (by
        rw [show t.buckets.toList = t.toList from rfl, h]; simp)
      rw [Table.bucket, hget, Option.getD_some]
    have hlist := NameMap.toList_modify (fun _ => (expandBucket s space state.1 bucket).bucket) h
    have hrest := ih
      ((expandBucket s space state.1 bucket).memory,
        state.2.add (expandBucket s space state.1 bucket).stats)
      (l ++ [(space, (expandBucket s space state.1 bucket).bucket)])
      (t.modify space fun _ => (expandBucket s space state.1 bucket).bucket)
      (by rw [List.append_assoc]; exact hlist)
    have hvisit : visit s (state, t) space =
        (((expandBucket s space state.1 bucket).memory,
          state.2.add (expandBucket s space state.1 bucket).stats),
          t.modify space fun _ => (expandBucket s space state.1 bucket).bucket) := by
      simp only [visit, hb]
    simp only [Entries.keys, List.map_cons, List.foldl_cons, hvisit, Entries.mapAccum]
    simpa only [Entries.keys, List.append_assoc, List.singleton_append] using hrest

theorem expand_eq_expandInOrder (memory : Memory s.registry) (t : Table) :
    expand s true memory t = expandInOrder s memory t.namespaces t := by
  obtain ⟨hstate, htable⟩ := foldl_visit_suffix s (memory, {}) [] t.toList t rfl
  have htables : (expandTable s memory t).2 = (expandInOrder s memory t.namespaces t).2 :=
    Table.ext_get? fun space => congrArg (List.lookup space) htable.symm
  exact Prod.ext hstate.symm htables

end ModelSurvey.Expansion
