import Mathlib.Algebra.Ring.Nat
import ModelSurvey.Proofs.Expansion.Settled
import ModelSurvey.Proofs.Expansion.SharedSource

/-! The modules that the includes of a bucket reach, by themselves or through the bodies of modules
reached before. A round takes one include out and visits what it names for the first time, so at any
moment the visited modules and the includes left account for everything reached. In the end no
include is left, and each reached module has been spliced once. -/
namespace ModelSurvey.Expansion
set_option autoImplicit false
open Syntax

variable (s : Sources) (space : String)

/-- The modules reached from the includes of a bucket. -/
inductive Reached (bucket : List Declaration) : String → Prop where
  | here {i : Declaration} {m : String} : i ∈ bucket → isInclude i = true →
      m ∈ namedModules s.registry space i.arguments → Reached bucket m
  | through {k m : String} {i : Declaration} : Reached bucket k → i ∈ s.bodies k →
      isInclude i = true → m ∈ namedModules s.registry space i.arguments → Reached bucket m

/-- An outcome has spliced each reached module once, and nothing else. -/
structure SplicedOnce (bucket : List Declaration) (o : Outcome s.registry) : Prop where
  nodup : o.visited.Nodup
  reached : ∀ m, m ∈ o.visited ↔ Reached s space bucket m
  perm : o.bucket.Perm (others bucket ++ o.visited.flatMap fun m => others (s.bodies m))
  includes : o.stats.includes =
    bucket.countP isInclude + (o.visited.map fun m => (s.bodies m).countP isInclude).sum
  spliced : o.stats.spliced = (o.visited.map fun m => (s.bodies m).length).sum
  length : o.bucket.length + o.stats.includes = bucket.length + o.stats.spliced

/-! ## The account of a run -/

/-- An include of the bucket, or of the bodies of a visited module. -/
def Stems (start : List Declaration) (visited : List String) (i : Declaration) : Prop :=
  isInclude i = true ∧ (i ∈ start ∨ ∃ m ∈ visited, i ∈ s.bodies m)

/-- What holds after any number of rounds that began with the bucket `start`. -/
structure Accounted (start : List Declaration) (o : Outcome s.registry) : Prop where
  faithful : Faithful s o.memory
  nodup : o.visited.Nodup
  reached : ∀ m ∈ o.visited, Reached s space start m
  pending : ∀ i ∈ o.bucket, isInclude i = true → Stems s start o.visited i
  covered : ∀ i, Stems s start o.visited i →
    i ∈ o.bucket ∨ ∀ m ∈ namedModules s.registry space i.arguments, m ∈ o.visited
  perm : (others o.bucket).Perm
    (others start ++ o.visited.flatMap fun m => others (s.bodies m))
  includes : o.stats.includes + o.bucket.countP isInclude =
    start.countP isInclude + (o.visited.map fun m => (s.bodies m).countP isInclude).sum
  spliced : o.stats.spliced = (o.visited.map fun m => (s.bodies m).length).sum

variable {s space}

theorem accounted_start (space : String) {memory : Memory s.registry} (h : Faithful s memory)
    (start : List Declaration) : Accounted s space start ⟨start, [], memory, {}⟩ where
  faithful := h
  nodup := List.nodup_nil
  reached := by simp
  pending := fun i hi hinclude => ⟨hinclude, Or.inl hi⟩
  covered := by
    rintro i ⟨-, hi | ⟨m, hm, -⟩⟩
    · exact Or.inl hi
    · cases hm
  perm := by simp
  includes := by simp
  spliced := rfl

theorem Accounted.reached_of_stems {start : List Declaration} {o : Outcome s.registry}
    (h : Accounted s space start o) {i : Declaration} (hi : Stems s start o.visited i) {m : String}
    (hm : m ∈ namedModules s.registry space i.arguments) : Reached s space start m := by
  obtain ⟨hinclude, hi | ⟨k, hk, hi⟩⟩ := hi
  · exact Reached.here hi hinclude hm
  · exact Reached.through (h.reached k hk) hi hinclude hm

theorem Stems.mono {start : List Declaration} {visited visited' : List String} {i : Declaration}
    (h : Stems s start visited i) (hv : ∀ m ∈ visited, m ∈ visited') :
    Stems s start visited' i := by
  obtain ⟨hinclude, hi | ⟨m, hm, hi⟩⟩ := h
  · exact ⟨hinclude, Or.inl hi⟩
  · exact ⟨hinclude, Or.inr ⟨m, hv m hm, hi⟩⟩

/-! ## One round -/

theorem exists_of_round (ha : s.ReadsAlike) {o o' : Outcome s.registry}
    (hf : Faithful s o.memory) (h : round s space o = some o') :
    ∃ pre i post, o.bucket = pre ++ i :: post ∧ isInclude i = true ∧ Faithful s o'.memory ∧
      let new := newModules s space o.visited i
      o'.bucket = pre ++ new.flatMap s.bodies ++ post ∧
        o'.visited = new.reverse ++ o.visited ∧
          o'.stats = o.stats.add ⟨1, (new.flatMap s.bodies).length⟩ := by
  rw [round] at h
  split at h
  · cases h
  · rename_i pre i post hs
    obtain ⟨hbucket, hi⟩ := eq_of_splitInclude hs
    simp only [Option.some.injEq] at h
    subst h
    have hbodies := hf.bodies_takeArguments ha space o.visited i
    refine ⟨pre, i, post, hbucket, hi, hf.takeArguments space o.visited i, ?_, ?_, ?_⟩
    · rw [← hbodies]
    · exact visited_takeArguments s space o.memory o.visited i
    · rw [← hbodies]

theorem others_append (l r : List Declaration) : others (l ++ r) = others l ++ others r :=
  List.filter_append l r

theorem perm_others_splice (pre post : List Declaration) {i : Declaration} (hi : isInclude i = true)
    (new : List String) : (others (pre ++ new.flatMap s.bodies ++ post)).Perm
      (others (pre ++ i :: post) ++ new.flatMap fun m => others (s.bodies m)) := by
  have hnew : others (new.flatMap s.bodies) = new.flatMap fun m => others (s.bodies m) :=
    List.filter_flatMap
  rw [others_append, others_append, others_append, others_cons_of_include post hi, hnew,
    List.append_assoc, List.append_assoc]
  exact List.Perm.append_left (others pre) List.perm_append_comm

theorem countP_splice (pre post : List Declaration) {i : Declaration} (hi : isInclude i = true)
    (new : List String) : 1 + (pre ++ new.flatMap s.bodies ++ post).countP isInclude =
      (pre ++ i :: post).countP isInclude +
        (new.map fun m => (s.bodies m).countP isInclude).sum := by
  simp only [List.countP_append, List.countP_cons_of_pos hi, List.countP_flatMap,
    Function.comp_def]
  omega

theorem Accounted.step (ha : s.ReadsAlike) {start : List Declaration} {o o' : Outcome s.registry}
    (h : Accounted s space start o) (hround : round s space o = some o') :
    Accounted s space start o' := by
  obtain ⟨pre, i, post, hbucket, hi, hfaithful, hbucket', hvisited', hstats'⟩ :=
    exists_of_round ha h.faithful hround
  have hpending : Stems s start o.visited i := h.pending i (by simp [hbucket]) hi
  have hold : ∀ m ∈ o.visited, m ∈ o'.visited := by
    intro m hm
    rw [hvisited']
    exact List.mem_append_right _ hm
  have hnew : ∀ m ∈ newModules s space o.visited i, m ∈ o'.visited := by
    intro m hm
    rw [hvisited']
    exact List.mem_append_left _ (List.mem_reverse.2 hm)
  refine ⟨hfaithful, ?nodup, ?reached, ?pending, ?covered, ?perm, ?includes, ?spliced⟩
  case nodup =>
    rw [hvisited']
    refine List.nodup_append.2 ⟨(List.reverse_perm _).nodup_iff.2 (nodup_firsts _ _), h.nodup, ?_⟩
    intro m hm k hk hmk
    rw [List.mem_reverse, mem_newModules] at hm
    exact hm.2 (hmk ▸ hk)
  case reached =>
    intro m hm
    rw [hvisited', List.mem_append, List.mem_reverse] at hm
    rcases hm with hm | hm
    · exact h.reached_of_stems hpending (mem_newModules.1 hm).1
    · exact h.reached m hm
  case pending =>
    intro j hj hinclude
    rw [hbucket', List.mem_append, List.mem_append, List.mem_flatMap] at hj
    rcases hj with (hj | ⟨m, hm, hj⟩) | hj
    · exact (h.pending j (by simp [hbucket, hj]) hinclude).mono hold
    · exact ⟨hinclude, Or.inr ⟨m, hnew m hm, hj⟩⟩
    · exact (h.pending j (by simp [hbucket, hj]) hinclude).mono hold
  case covered =>
    rintro j ⟨hinclude, hj⟩
    -- An include of the new bodies is pending; any other one was accounted for before.
    by_cases hnewest : ∃ m ∈ newModules s space o.visited i, j ∈ s.bodies m
    · obtain ⟨m, hm, hjm⟩ := hnewest
      refine Or.inl ?_
      rw [hbucket']
      exact List.mem_append_left _ (List.mem_append_right _ (List.mem_flatMap.2 ⟨m, hm, hjm⟩))
    · have hstems : Stems s start o.visited j := by
        rcases hj with hj | ⟨m, hm, hjm⟩
        · exact ⟨hinclude, Or.inl hj⟩
        · rw [hvisited', List.mem_append, List.mem_reverse] at hm
          rcases hm with hm | hm
          · exact absurd ⟨m, hm, hjm⟩ hnewest
          · exact ⟨hinclude, Or.inr ⟨m, hm, hjm⟩⟩
      rcases h.covered j hstems with hbefore | hvisited
      · rw [hbucket, List.mem_append, List.mem_cons] at hbefore
        rcases hbefore with hpre | rfl | hpost
        · exact Or.inl (by simp [hbucket', hpre])
        · refine Or.inr fun m hm => ?_
          by_cases hv : m ∈ o.visited
          · exact hold m hv
          · exact hnew m (mem_newModules.2 ⟨hm, hv⟩)
        · exact Or.inl (by simp [hbucket', hpost])
      · exact Or.inr fun m hm => hold m (hvisited m hm)
  case perm =>
    have hsplice := perm_others_splice (s := s) pre post hi (newModules s space o.visited i)
    rw [← hbucket, ← hbucket'] at hsplice
    refine (hsplice.trans (h.perm.append_right _)).trans ?_
    rw [hvisited', List.flatMap_append, List.append_assoc]
    refine List.Perm.append_left (others start) (List.perm_append_comm.trans ?_)
    exact ((List.reverse_perm _).symm.flatMap_right _).append_right _
  case includes =>
    have hsplice := countP_splice (s := s) pre post hi (newModules s space o.visited i)
    have hbefore := h.includes
    rw [← hbucket, ← hbucket'] at hsplice
    rw [hvisited', hstats', List.map_append, List.sum_append, List.map_reverse, List.sum_reverse]
    simp only [Stats.add]
    omega
  case spliced =>
    have hbefore := h.spliced
    rw [hvisited', hstats', List.map_append, List.sum_append, List.map_reverse, List.sum_reverse]
    simp only [Stats.add, List.length_flatMap]
    omega

/-! ## Whole runs -/

theorem Accounted.run (ha : s.ReadsAlike) {start : List Declaration} {o o' : Outcome s.registry}
    (h : Accounted s space start o)
    (hrun : Relation.ReflTransGen (fun a b => round s space a = some b) o o') :
    Accounted s space start o' := by
  induction hrun with
  | refl => exact h
  | tail _ hround ih => exact ih.step ha hround

theorem Accounted.mem_visited_iff {start : List Declaration} {o : Outcome s.registry}
    (h : Accounted s space start o) (hdone : ∀ d ∈ o.bucket, isInclude d = false) {m : String} :
    m ∈ o.visited ↔ Reached s space start m := by
  have hclosed : ∀ i, Stems s start o.visited i →
      ∀ m ∈ namedModules s.registry space i.arguments, m ∈ o.visited := by
    intro i hi
    refine (h.covered i hi).resolve_left fun hmem => ?_
    have hno := hdone i hmem
    rw [hi.1] at hno
    cases hno
  refine ⟨h.reached m, fun hm => ?_⟩
  induction hm with
  | here hi hinclude hm => exact hclosed _ ⟨hinclude, Or.inl hi⟩ _ hm
  | through _ hi hinclude hm ih => exact hclosed _ ⟨hinclude, Or.inr ⟨_, ih, hi⟩⟩ _ hm

/-- Where spellings make no difference, a run splices each reached module once. -/
theorem splicedOnce_expandBucket (ha : s.ReadsAlike) {memory : Memory s.registry}
    (h : Faithful s memory) (bucket : List Declaration) :
    SplicedOnce s space bucket (expandBucket s space memory bucket) := by
  have hdone := isInclude_of_mem_expandFrom s space memory [] bucket
  have hend := (accounted_start space h bucket).run ha (rounds_expandBucket s space memory bucket)
  have hothers : others (expandBucket s space memory bucket).bucket =
      (expandBucket s space memory bucket).bucket :=
    List.filter_eq_self.2 fun d hd => by simp [hdone d hd]
  have hnone : (expandBucket s space memory bucket).bucket.countP isInclude = 0 :=
    List.countP_eq_zero.2 fun d hd => by simp [hdone d hd]
  refine ⟨hend.nodup, fun m => hend.mem_visited_iff hdone, ?_, ?_, hend.spliced,
    length_expandFrom s space memory [] bucket⟩
  · rw [← hothers]
    exact hend.perm
  · have hincludes := hend.includes
    rwa [hnone, Nat.add_zero] at hincludes

/-! ## Where spellings make a difference -/

theorem SplicedOnce.spliced_eq_zero_iff {i : Declaration} (hi : isInclude i = true)
    {o : Outcome s.registry} (h : SplicedOnce s space [i] o) :
    o.stats.spliced = 0 ↔ ∀ m ∈ namedModules s.registry space i.arguments, s.bodies m = [] := by
  rw [h.spliced, List.sum_eq_zero_iff_forall_eq_nat]
  simp only [List.mem_map, forall_exists_index, and_imp, forall_apply_eq_imp_iff₂,
    List.length_eq_zero_iff, h.reached]
  constructor
  · intro hnil m hm
    exact hnil m (Reached.here (List.mem_singleton_self i) hi hm)
  · intro hnil m hm
    induction hm with
    | here hmem _ hm =>
      rw [List.mem_singleton.1 hmem] at hm
      exact hnil _ hm
    | through _ hmem _ _ ih =>
      rw [ih] at hmem
      cases hmem

theorem bodiesIn_pair_iff {m n : String} {p q : Path}
    (h : SplicedOnce s space [rootedInclude [m, n]]
      (expandBucket s space .fresh [rootedInclude [m, n]]))
    (hm : s.ConcernAt m p) (hn : s.ConcernAt n q) (hne : n ≠ m)
    (hcomp : p.components = q.components) :
    s.bodiesIn p m = [] ∧ s.bodiesIn p n = [] ↔ s.bodiesIn p m = [] ∧ s.bodiesIn q n = [] := by
  have hzero := h.spliced_eq_zero_iff rfl
  have hnamed : namedModules s.registry space (rootedInclude [m, n]).arguments = [m, n] :=
    namedModules_rootedInclude space
      (List.forall_mem_cons.2 ⟨⟨p, hm⟩, List.forall_mem_singleton.2 ⟨q, hn⟩⟩)
  rw [spliced_expandBucket_eq_zero_iff space .fresh rfl,
    bodies_rootedInclude_pair space hm hn hne hcomp, hnamed, List.append_eq_nil_iff] at hzero
  rw [hzero]
  simp [Sources.bodies_of_concernAt hm, Sources.bodies_of_concernAt hn]

theorem readsAlike_of_splicedOnce
    (h : ∀ bucket, SplicedOnce s space bucket (expandBucket s space .fresh bucket)) :
    s.ReadsAlike := by
  refine readsAlike_of_silent fun m n p q hm hn hne hcomp hpm => ?_
  have hpair := bodiesIn_pair_iff (h _) hm hn hne hcomp
  simpa [hpm] using hpair

/-- A fresh run splices each reached module of every bucket once exactly if spellings make no
difference, and then any later run does so too. -/
theorem splicedOnce_iff_readsAlike (s : Sources) :
    ((∀ space bucket, SplicedOnce s space bucket (expandBucket s space .fresh bucket)) ↔
      s.ReadsAlike) ∧
    (s.ReadsAlike → ∀ memory, Reachable s memory → ∀ space bucket,
      SplicedOnce s space bucket (expandBucket s space memory bucket)) := by
  refine ⟨⟨fun h => readsAlike_of_splicedOnce (h ""), ?_⟩, ?_⟩
  · intro ha space bucket
    exact splicedOnce_expandBucket ha (faithful_fresh s) bucket
  · intro ha memory hm space bucket
    exact splicedOnce_expandBucket ha hm.faithful bucket

/-- The second concern is reached and has a body, but its include brings nothing. -/
theorem not_splicedOnce_slashed :
    ¬ SplicedOnce slashed "" [rootedInclude ["Broken", "Included"]]
      (expandBucket slashed "" .fresh [rootedInclude ["Broken", "Included"]]) := by
  intro h
  have hpair := bodiesIn_pair_iff h concernAt_broken concernAt_included (by decide)
    components_slashed
  have hnil := (hpair.1 ⟨bodiesIn_broken _, bodiesIn_broken _⟩).2
  have hnames := names_included
  rw [hnil] at hnames
  cases hnames

end ModelSurvey.Expansion
