import ModelSurvey.Proofs.Expansion.SharedSource

/-! Passes that need no memory. What a run shows is the expanded bucket, the visited modules and the
counts, but not what it has looked up. In a pass the visited modules alone go from one declaration
to the next, and an include stands for what the files give. Runs are such passes exactly where
spellings make no difference; elsewhere it takes what was looked up as well to go on with a run. -/
namespace ModelSurvey.Expansion
set_option autoImplicit false
open Syntax

/-! ## What runs show -/

/-- An outcome but for its memory. -/
structure Shown where
  bucket : List Declaration
  visited : List String
  stats : Stats

def Outcome.shown {registry : Registry} (o : Outcome registry) : Shown :=
  ⟨o.bucket, o.visited, o.stats⟩

/-- What a run shows that begins with some visited modules. -/
def run (s : Sources) (space : String) (memory : Memory s.registry) (visited : List String)
    (bucket : List Declaration) : Shown := (expandFrom s space memory visited bucket).shown

/-- A run over two lists is a run over the first one, and then one over the second one that begins
with the modules visited so far. -/
def Joins (run : List String → List Declaration → Shown) : Prop :=
  ∀ visited xs ys,
    let first := run visited xs
    let second := run first.visited ys
    run visited (xs ++ ys) =
      ⟨first.bucket ++ second.bucket, second.visited, first.stats.add second.stats⟩

/-- A run that meets an include visits all new modules that the include names, and goes on with
their bodies in the place of the include. -/
def Splices (s : Sources) (space : String) (run : List String → List Declaration → Shown) : Prop :=
  ∀ visited i ys, isInclude i = true →
    let new := newModules s space visited i
    let bodies := new.flatMap s.bodies
    let rest := run (new.reverse ++ visited) (bodies ++ ys)
    run visited (i :: ys) = { rest with stats := Stats.add ⟨1, bodies.length⟩ rest.stats } ∧
      ∀ m, m ∈ new.reverse ++ visited ↔
        m ∈ visited ∨ m ∈ namedModules s.registry space i.arguments

/-- Runs are passes from left to right. What is no include keeps its place and order, and what an
include brings stands between its former neighbours. -/
structure OnePass (s : Sources) (space : String) (run : List String → List Declaration → Shown) :
    Prop where
  ends : ∀ visited, run visited [] = ⟨[], visited, {}⟩
  keeps : ∀ visited d ys, isInclude d = false →
    let rest := run visited ys
    run visited (d :: ys) = { rest with bucket := d :: rest.bucket }
  splices : Splices s space run
  joins : Joins run
  order : ∀ visited bucket, (others bucket).Sublist (run visited bucket).bucket
  place : ∀ visited pre d post,
    let before := run visited pre
    let here := run before.visited [d]
    let after := run here.visited post
    (run visited (pre ++ d :: post)).bucket = before.bucket ++ here.bucket ++ after.bucket

theorem Joins.place {run : List String → List Declaration → Shown} (h : Joins run)
    (visited : List String) (pre : List Declaration) (d : Declaration) (post : List Declaration) :
    let before := run visited pre
    let here := run before.visited [d]
    let after := run here.visited post
    (run visited (pre ++ d :: post)).bucket = before.bucket ++ here.bucket ++ after.bucket := by
  have hall := h visited pre (d :: post)
  have hpost := h (run visited pre).visited [d] post
  rw [List.singleton_append] at hpost
  dsimp only at hall hpost ⊢
  rw [hall, hpost, List.append_assoc]

variable {s : Sources} {space : String}

/-! ## Where spellings make no difference -/

theorem shown_expandFrom (ha : s.ReadsAlike) {memory : Memory s.registry} (h : Faithful s memory)
    (space : String) (visited : List String) (bucket : List Declaration) :
    (expandFrom s space memory visited bucket).shown = run s space .fresh visited bucket := by
  obtain ⟨hbucket, hvisited, hstats⟩ :=
    expandFrom_congr ha h (faithful_fresh s) space visited bucket
  rw [run, Outcome.shown, Outcome.shown, hbucket, hvisited, hstats]

theorem joins_run (ha : s.ReadsAlike) (space : String) : Joins (run s space .fresh) := by
  intro visited xs ys
  have hfirst := (faithful_fresh s).expandFrom space visited xs
  have hsecond := shown_expandFrom ha hfirst space (run s space .fresh visited xs).visited ys
  have hall := congrArg Outcome.shown (expandFrom_append s space .fresh visited xs ys)
  dsimp only
  rw [← hsecond]
  exact hall

theorem splices_run (ha : s.ReadsAlike) (space : String) :
    Splices s space (run s space .fresh) := by
  intro visited i ys hi
  refine ⟨?_, fun m => mem_newModules_append s space visited⟩
  have hbodies := (faithful_fresh s).bodies_takeArguments ha space visited i
  have hrest := shown_expandFrom ha ((faithful_fresh s).takeArguments space visited i) space
    ((newModules s space visited i).reverse ++ visited)
    ((newModules s space visited i).flatMap s.bodies ++ ys)
  have hall := congrArg Outcome.shown (expandFrom_include s space .fresh visited ys hi)
  rw [← bodies_takeArguments, hbodies] at hall
  rw [← hrest]
  exact hall

theorem onePass_run (ha : s.ReadsAlike) (space : String) :
    OnePass s space (run s space .fresh) where
  ends visited := congrArg Outcome.shown (expandFrom_of_none s space .fresh visited rfl)
  keeps visited _ ys h :=
    congrArg Outcome.shown (expandFrom_cons_of_not s space .fresh visited ys h)
  splices := splices_run ha space
  joins := joins_run ha space
  order := sublist_expandFrom s space .fresh
  place := (joins_run ha space).place

/-! ## Where they make one -/

/-- Where a concern brings nothing, nothing is left of its include. -/
theorem run_rootedInclude_of_silent (space : String) {m : String} {p : Path}
    (hm : s.ConcernAt m p) (h : s.bodiesIn p m = []) :
    run s space .fresh [] [rootedInclude [m]] = ⟨[], [m], ⟨1, 0⟩⟩ := by
  have hbodies := bodies_rootedInclude_fresh space hm List.not_mem_nil
  have hvisited := visited_takeArguments s space .fresh [] (rootedInclude [m])
  rw [newModules_rootedInclude space (List.forall_mem_singleton.2 ⟨p, hm⟩) (by simp)] at hvisited
  rw [run, expandFrom_cons_of_include s space .fresh [] [] rfl]
  dsimp only
  rw [hbodies, h, hvisited, expandFrom_of_none s space _ _ rfl]
  rfl

theorem Splices.readsAlike (h : Splices s space (run s space .fresh)) : s.ReadsAlike := by
  refine readsAlike_of_silent fun m n p q hm hn hne hcomp hpm => ?_
  have hnew : newModules s space [] (rootedInclude [m, n]) = [m, n] :=
    newModules_rootedInclude space
      (List.forall_mem_cons.2 ⟨⟨p, hm⟩, List.forall_mem_singleton.2 ⟨q, hn⟩⟩)
      (by simp [Ne.symm hne])
  have hbodies : [m, n].flatMap s.bodies = s.bodiesIn q n := by
    simp [Sources.bodies_of_concernAt hm, Sources.bodies_of_concernAt hn, hpm]
  have hrun : (run s space .fresh [] [rootedInclude [m, n]]).stats.spliced = 0 ↔
      s.bodiesIn p n = [] := by
    have hpair := spliced_expandBucket_eq_zero_iff (i := rootedInclude [m, n]) space
      (Memory.fresh : Memory s.registry) rfl
    rwa [bodies_rootedInclude_pair space hm hn hne hcomp, hpm, List.nil_append] at hpair
  have hrule := (h [] (rootedInclude [m, n]) [] rfl).1
  rw [hnew, hbodies] at hrule
  rw [← hrun, hrule]
  simp only [Stats.add, List.append_nil]
  constructor
  · intro hzero
    exact List.length_eq_zero_iff.1 (by omega)
  · intro hnil
    rw [hnil, run, expandFrom_of_none s space _ _ rfl]
    rfl

/-- In one run the second concern comes after what the first one looked up. -/
theorem spliced_run_after_silent (space : String) {m n : String} {p q : Path}
    (hm : s.ConcernAt m p) (hn : s.ConcernAt n q) (hne : n ≠ m)
    (hcomp : p.components = q.components) (hpm : s.bodiesIn p m = []) :
    (run s space .fresh [] ([rootedInclude [m]] ++ [rootedInclude [n]])).stats.spliced = 0 ↔
      s.bodiesIn p n = [] := by
  have hfirst := run_rootedInclude_of_silent space hm hpm
  have hvisited : (expandFrom s space .fresh [] [rootedInclude [m]]).visited = [m] :=
    congrArg Shown.visited hfirst
  have hstats : (expandFrom s space .fresh [] [rootedInclude [m]]).stats = ⟨1, 0⟩ :=
    congrArg Shown.stats hfirst
  have hnext := spliced_expandFrom_eq_zero_iff (i := rootedInclude [n]) space
    (expandBucket s space .fresh [rootedInclude [m]]).memory [m] rfl
  rw [bodies_after_rootedInclude space hm hn (by simpa using hne) hcomp] at hnext
  rw [run, expandFrom_append]
  dsimp only [Outcome.shown]
  rw [hvisited, hstats, ← hnext]
  simp only [Stats.add, Nat.zero_add]
  rfl

theorem Joins.readsAlike (h : Joins (run s space .fresh)) : s.ReadsAlike := by
  refine readsAlike_of_silent fun m n p q hm hn hne hcomp hpm => ?_
  have hfresh := spliced_expandFrom_eq_zero_iff (i := rootedInclude [n]) space
    (Memory.fresh : Memory s.registry) [m] rfl
  rw [bodies_rootedInclude_fresh space hn (by simpa using hne)] at hfresh
  have hjoin := h [] [rootedInclude [m]] [rootedInclude [n]]
  rw [run_rootedInclude_of_silent space hm hpm] at hjoin
  rw [← spliced_run_after_silent space hm hn hne hcomp hpm, hjoin, ← hfresh]
  simp only [Stats.add, Nat.zero_add]
  rfl

/-- The visited modules alone lead fresh runs through every bucket in one pass exactly if spellings
make no difference, and then later runs show the same. Whatever the spellings, the loop is one pass
that hands on the visited modules together with what was looked up. -/
theorem one_pass_iff_readsAlike (s : Sources) :
    ((∀ space, OnePass s space (run s space .fresh)) ↔ s.ReadsAlike) ∧
    ((∀ space, Splices s space (run s space .fresh)) ↔ s.ReadsAlike) ∧
    ((∀ space, Joins (run s space .fresh)) ↔ s.ReadsAlike) ∧
    (s.ReadsAlike → ∀ memory, Reachable s memory → ∀ space,
      run s space memory = run s space .fresh) ∧
    ∀ space memory visited,
      (∀ bucket, expandFrom s space memory visited bucket = pass s space memory visited bucket) ∧
      (∀ xs ys,
        let first := expandFrom s space memory visited xs
        let second := expandFrom s space first.memory first.visited ys
        expandFrom s space memory visited (xs ++ ys) =
          ⟨first.bucket ++ second.bucket, second.visited, second.memory,
            first.stats.add second.stats⟩) ∧
      (∀ d ys, isInclude d = false →
        let rest := expandFrom s space memory visited ys
        expandFrom s space memory visited (d :: ys) = { rest with bucket := d :: rest.bucket }) ∧
      (∀ i ys, isInclude i = true →
        let g := takeArguments s space memory visited i.arguments
        let new := newModules s space visited i
        let bodies := new.flatMap g.memory.bodies
        let rest := expandFrom s space g.memory (new.reverse ++ visited) (bodies ++ ys)
        expandFrom s space memory visited (i :: ys) =
          { rest with stats := Stats.add ⟨1, bodies.length⟩ rest.stats }) ∧
      (∀ pre d post,
        let before := expandFrom s space memory visited pre
        let here := expandFrom s space before.memory before.visited [d]
        let after := expandFrom s space here.memory here.visited post
        (expandFrom s space memory visited (pre ++ d :: post)).bucket =
          before.bucket ++ here.bucket ++ after.bucket ∧
        (isInclude d = false → here.bucket = [d])) ∧
      ∀ bucket, (others bucket).Sublist (expandFrom s space memory visited bucket).bucket := by
  refine ⟨⟨fun h => (h "").splices.readsAlike, onePass_run⟩,
    ⟨fun h => (h "").readsAlike, splices_run⟩, ⟨fun h => (h "").readsAlike, joins_run⟩, ?_, ?_⟩
  · intro ha memory hm space
    funext visited bucket
    exact shown_expandFrom ha hm.faithful space visited bucket
  · intro space memory visited
    refine ⟨expandFrom_eq_pass s space memory visited, expandFrom_append s space memory visited,
      fun d ys h => expandFrom_cons_of_not s space memory visited ys h,
      fun i ys h => expandFrom_include s space memory visited ys h, fun pre d post => ?_,
      sublist_expandFrom s space memory visited⟩
    refine ⟨bucket_expandFrom_place s space memory visited pre post d, fun hd => ?_⟩
    rw [expandFrom_singleton_of_not s space _ _ hd]

/-- Both concerns are new to the include and one has a body, but a run over the include shows none,
though one over the bodies does. -/
theorem slashed_pair_is_no_pass :
    let pair := rootedInclude ["Broken", "Included"]
    let new := newModules slashed "" [] pair
    let bodies := new.flatMap slashed.bodies
    (run slashed "" .fresh [] [pair]).bucket = [] ∧
      (run slashed "" .fresh (new.reverse ++ []) (bodies ++ [])).bucket.map (·.name) = ["x"] ∧
      ¬OnePass slashed "" (run slashed "" .fresh) := by
  intro pair new bodies
  have hnew : new = ["Broken", "Included"] := newModules_rootedInclude ""
    (List.forall_mem_cons.2
      ⟨⟨_, concernAt_broken⟩, List.forall_mem_singleton.2 ⟨_, concernAt_included⟩⟩) (by decide)
  have hbodies : bodies = slashed.bodiesIn ⟨"/included.rb"⟩ "Included" := by
    simp [bodies, hnew, Sources.bodies_of_concernAt concernAt_broken,
      Sources.bodies_of_concernAt concernAt_included, bodiesIn_broken]
  have hwhole : (run slashed "" .fresh [] [pair]).bucket = [] := bucket_expandBucket_pair
  have hrest : (run slashed "" .fresh (new.reverse ++ []) (bodies ++ [])).bucket.map (·.name) =
      ["x"] := by
    have hnone : splitInclude bodies = none :=
      splitInclude_eq_none_iff.2 fun d hd => isInclude_of_mem_included (hbodies ▸ hd)
    rw [run, List.append_nil bodies, expandFrom_of_none slashed "" _ _ hnone, hbodies]
    exact names_included
  refine ⟨hwhole, hrest, fun h => ?_⟩
  have hrule := hwhole.symm.trans (congrArg Shown.bucket (h.splices [] pair [] rfl).1)
  have hnames := congrArg (List.map (·.name)) hrule
  exact absurd (hnames.trans hrest) (by simp)

end ModelSurvey.Expansion
