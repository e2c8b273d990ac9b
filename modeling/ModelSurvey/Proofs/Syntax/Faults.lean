import ModelSurvey.Proofs.Syntax.Nodes
import ModelSurvey.Syntax.Lower

/-! Counting faulty nodes. The walk that counts moves a cursor one node at a time: to the first child
of a node with the flag, else to the next sibling, and upwards as long as there is none. At every
moment the nodes that it has still to count lie in the trees ahead of the cursor, and a tree without
the flag can be passed over since no fault lies in it. So the walk ends, and what it has counted then
are the faulty nodes of the whole tree. -/
namespace ModelSurvey.Syntax
set_option autoImplicit false

/-! ## Faulty nodes -/

namespace Tree

theorem nodes_eq (t : Tree) : t.nodes = t :: nodesAll t.children := by
  cases t with
  | node a cs => rw [nodes, children]

theorem nodesAll_append (ts us : List Tree) :
    nodesAll (ts ++ us) = nodesAll ts ++ nodesAll us := by
  induction ts with
  | nil => rw [List.nil_append, nodesAll, List.nil_append]
  | cons t r ih => rw [List.cons_append, nodesAll, nodesAll, ih, List.append_assoc]

def isFaulty (t : Tree) : Bool := isFault t.label

/-- The number of faulty nodes in some trees. -/
def faultsIn (ts : List Tree) : Nat := (nodesAll ts).countP isFaulty

/-- A flag tells of a tree whether its root or a node inside it is faulty. -/
def Tells (flag : Tree → Bool) (t : Tree) : Prop := flag t = true ↔ ∃ u ∈ t.nodes, u.isFaulty = true

theorem faultsIn_append (ts us : List Tree) : faultsIn (ts ++ us) = faultsIn ts + faultsIn us := by
  rw [faultsIn, nodesAll_append, List.countP_append]
  rfl

theorem faultsIn_cons (t : Tree) (r : List Tree) :
    faultsIn (t :: r) = (if t.isFaulty then 1 else 0) + faultsIn (t.children ++ r) := by
  rw [faultsIn_append, faultsIn, nodesAll, nodes_eq, List.cons_append, List.countP_cons,
    List.countP_append, Nat.add_comm]
  rfl

section Flag

variable {flag : Tree → Bool} {t : Tree}

/-- A tree without the flag holds nothing to be counted. -/
theorem Tells.faultsIn_unflagged (h : Tells flag t) (hflag : ¬flag t = true) (r : List Tree) :
    t.isFaulty = false ∧ faultsIn (t :: r) = faultsIn r := by
  have hclean : ∀ u ∈ t.nodes, ¬u.isFaulty = true := by
    intro u hu hfaulty
    exact hflag (h.2 ⟨u, hu, hfaulty⟩)
  refine ⟨by simpa using hclean t (self_mem_nodes t), ?_⟩
  rw [faultsIn, nodesAll, List.countP_append, List.countP_eq_zero.2 hclean, Nat.zero_add]
  rfl

/-- Only below the flag there is something left to be counted. -/
theorem Tells.faultsIn_pruned (h : Tells flag t) (r : List Tree) :
    faultsIn (t :: r) =
      (if t.isFaulty then 1 else 0) + faultsIn ((if flag t then t.children else []) ++ r) := by
  by_cases hflag : flag t = true
  · rw [if_pos hflag, faultsIn_cons]
  · obtain ⟨hclean, hrest⟩ := h.faultsIn_unflagged hflag r
    rw [if_neg hflag, hclean, hrest]
    exact (Nat.zero_add _).symm

end Flag

mutual

theorem tells_hasFault : ∀ t : Tree, Tells hasFault t
  | .node a cs => by
    have hself : (node a cs).isFaulty = isFault a := rfl
    rw [Tells, hasFault, Bool.or_eq_true, tells_anyFault cs, nodes_eq]
    simp [hself, children]

theorem tells_anyFault : ∀ ts : List Tree,
    anyFault ts = true ↔ ∃ u ∈ nodesAll ts, u.isFaulty = true
  | [] => by simp [anyFault, nodesAll]
  | t :: r => by
    have htree : hasFault t = true ↔ ∃ u ∈ t.nodes, u.isFaulty = true := tells_hasFault t
    rw [anyFault, Bool.or_eq_true, htree, tells_anyFault r, nodesAll]
    simp only [List.mem_append, or_and_right]
    exact exists_or.symm

end

end Tree

/-! ## What lies ahead of a cursor -/

namespace Cursor

variable {c d : Cursor}

/-- The trees behind the subtree at the cursor, nearest first. -/
def ahead (c : Cursor) : List Tree := c.later ++ c.above.flatMap Prod.snd

def parent? (c : Cursor) : Option Cursor :=
  match c.above with
  | [] => none
  | (t, later) :: above => some ⟨t, later, above⟩

theorem ahead_firstChild? (h : c.firstChild? = some d) :
    d.focus :: d.ahead = c.focus.children ++ c.ahead ∧ d.above.length = c.above.length + 1 := by
  rw [firstChild?] at h
  split at h
  · cases h
  · rename_i t r hchildren
    cases h
    rw [hchildren]
    exact ⟨rfl, rfl⟩

theorem children_of_firstChild?_none (h : c.firstChild? = none) : c.focus.children = [] := by
  rw [firstChild?] at h
  split at h
  · assumption
  · cases h

theorem ahead_nextSibling? (h : c.nextSibling? = some d) :
    d.focus :: d.ahead = c.ahead ∧ d.above = c.above := by
  rw [nextSibling?] at h
  split at h
  · cases h
  · rename_i t r hlater
    cases h
    rw [ahead, ahead, hlater]
    exact ⟨rfl, rfl⟩

theorem later_of_nextSibling?_none (h : c.nextSibling? = none) : c.later = [] := by
  rw [nextSibling?] at h
  split at h
  · assumption
  · cases h

theorem ahead_parent? (hlater : c.nextSibling? = none) (h : c.parent? = some d) :
    d.ahead = c.ahead ∧ d.above.length < c.above.length := by
  rw [parent?] at h
  split at h
  · cases h
  · rename_i t later above habove
    cases h
    rw [ahead, ahead, later_of_nextSibling?_none hlater, habove]
    exact ⟨rfl, Nat.lt_succ_self _⟩

theorem ahead_of_parent?_none (hlater : c.nextSibling? = none) (h : c.parent? = none) :
    c.ahead = [] := by
  rw [parent?] at h
  split at h
  · rename_i habove
    rw [ahead, later_of_nextSibling?_none hlater, habove]
    rfl
  · cases h

theorem ahead_uncle? {above : List (Tree × List Tree)} :
    ((uncle? above).map fun d => d.focus :: d.ahead).getD [] = above.flatMap Prod.snd := by
  induction above with
  | nil => rfl
  | cons e above ih =>
    obtain ⟨t, later⟩ := e
    cases later with
    | nil => exact ih
    | cons u r => rfl

/-- The walk goes on with the nearest tree ahead. -/
theorem ahead_skip? (c : Cursor) :
    (c.skip?.map fun d => d.focus :: d.ahead).getD [] = c.ahead := by
  obtain ⟨t, later, above⟩ := c
  cases later with
  | nil => exact ahead_uncle?
  | cons u r => rfl

theorem ahead_next? (c : Cursor) :
    (c.next?.map fun d => d.focus :: d.ahead).getD [] =
      (if c.focus.hasFault then c.focus.children else []) ++ c.ahead := by
  rw [next?]
  by_cases hflag : c.focus.hasFault
  · rw [if_pos hflag, if_pos hflag]
    cases hchild : c.firstChild? with
    | none =>
      rw [children_of_firstChild?_none hchild]
      exact ahead_skip? c
    | some d => exact (ahead_firstChild? hchild).1
  · rw [if_neg hflag, if_neg hflag]
    exact ahead_skip? c

theorem countFaults_eq (c : Cursor) : c.countFaults = Tree.faultsIn (c.focus :: c.ahead) := by
  have hhere (c : Cursor) : Tree.faultsIn (c.focus :: c.ahead) =
      (if Tree.isFault c.focus.label then 1 else 0) +
        Tree.faultsIn ((c.next?.map fun d => d.focus :: d.ahead).getD []) := by
    rw [ahead_next?]
    exact (Tree.tells_hasFault c.focus).faultsIn_pruned c.ahead
  fun_induction countFaults c with
  | case1 c here hnext =>
    rw [hhere, hnext]
    rfl
  | case2 c here d hnext ih =>
    rw [hhere, hnext, ih]
    rfl

end Cursor

theorem Tree.faults_eq (t : Tree) : t.faults = faultsIn [t] := by
  rw [faults]
  split
  · exact Cursor.countFaults_eq _
  · rename_i hflag
    exact ((tells_hasFault t).faultsIn_unflagged hflag []).2.symm

/-! ## The walk, move by move -/

inductive Stage where
  | arriving
  | leaving
deriving DecidableEq, Repr

/-- A walk that has just come to a node, or is done with the subtree at its cursor. -/
structure FaultWalk where
  stage : Stage
  cursor : Cursor
  count : Nat

namespace FaultWalk

variable (flag : Tree → Bool)

/-- A tree without the flag is left at once. -/
def start (t : Tree) : FaultWalk := ⟨if flag t then .arriving else .leaving, .ofTree t, 0⟩

/-- One move. A node is counted on arrival; a walk that leaves the whole tree is over. -/
def step (w : FaultWalk) : Option FaultWalk :=
  match w.stage with
  | .arriving =>
    let count := w.count + if w.cursor.focus.isFaulty then 1 else 0
    match if flag w.cursor.focus then w.cursor.firstChild? else none with
    | some d => some ⟨.arriving, d, count⟩
    | none => some ⟨.leaving, w.cursor, count⟩
  | .leaving =>
    match w.cursor.nextSibling? with
    | some d => some ⟨.arriving, d, w.count⟩
    | none => w.cursor.parent?.map fun d => ⟨.leaving, d, w.count⟩

def steps : Nat → FaultWalk → Option FaultWalk
  | 0, w => some w
  | k + 1, w => (w.step flag).bind (steps k)

/-- The trees that the walk has still to go through. -/
def pending (w : FaultWalk) : List Tree :=
  match w.stage with
  | .arriving => w.cursor.focus :: w.cursor.ahead
  | .leaving => w.cursor.ahead

/-- A bound for the moves that are left. -/
def rank (w : FaultWalk) : Nat :=
  2 * (Tree.nodesAll w.pending).length + w.cursor.above.length +
    match w.stage with
    | .arriving => 1
    | .leaving => 2

/-- The flag tells the truth about every node that the walk may still come to. -/
def Informed (w : FaultWalk) : Prop := ∀ t ∈ Tree.nodesAll w.pending, Tree.Tells flag t

variable {flag} {w next : FaultWalk} {c : Cursor} {count : Nat}

theorem length_nodesAll_cons (t : Tree) (r : List Tree) :
    (Tree.nodesAll (t :: r)).length = (Tree.nodesAll (t.children ++ r)).length + 1 := by
  rw [Tree.nodesAll_append, Tree.nodesAll, Tree.nodes_eq]
  rfl

/-- What a walk does that has just come to a node. -/
theorem step_arriving (h : (⟨.arriving, c, count⟩ : FaultWalk).step flag = some next) :
    next.count = count + (if c.focus.isFaulty then 1 else 0) ∧
    next.pending = (if flag c.focus then c.focus.children else []) ++ c.ahead ∧
    next.rank < rank ⟨.arriving, c, count⟩ := by
  have hlength := length_nodesAll_cons c.focus c.ahead
  simp only [step] at h
  split at h
  · rename_i d hchild
    split at hchild
    · rename_i hflag
      obtain ⟨hahead, hdepth⟩ := Cursor.ahead_firstChild? hchild
      cases h
      refine ⟨rfl, by rw [if_pos hflag]; exact hahead, ?_⟩
      simp only [rank, pending, hahead, hlength, hdepth]
      omega
    · cases hchild
  · rename_i hchild
    have hchildren : (if flag c.focus then c.focus.children else []) = [] := by
      split at hchild
      · rename_i hflag
        rw [if_pos hflag, Cursor.children_of_firstChild?_none hchild]
      · rename_i hflag
        exact if_neg hflag
    cases h
    refine ⟨rfl, by rw [hchildren]; rfl, ?_⟩
    simp only [rank, pending, hlength, Tree.nodesAll_append, List.length_append]
    omega

/-- What a walk does that is done with a subtree. -/
theorem step_leaving (h : (⟨.leaving, c, count⟩ : FaultWalk).step flag = some next) :
    next.count = count ∧ next.pending = c.ahead ∧ next.rank < rank ⟨.leaving, c, count⟩ := by
  simp only [step] at h
  split at h
  · rename_i d hsibling
    obtain ⟨hahead, habove⟩ := Cursor.ahead_nextSibling? hsibling
    cases h
    refine ⟨rfl, hahead, ?_⟩
    simp only [rank, pending, hahead, habove]
    omega
  · rename_i hlater
    obtain ⟨d, hparent, rfl⟩ := Option.map_eq_some_iff.1 h
    obtain ⟨hahead, hdepth⟩ := Cursor.ahead_parent? hlater hparent
    refine ⟨rfl, hahead, ?_⟩
    simp only [rank, pending, hahead]
    omega

theorem pending_of_step_none (h : w.step flag = none) : w.pending = [] ∧ 2 ≤ w.rank := by
  obtain ⟨stage, c, count⟩ := w
  cases stage with
  | arriving =>
    simp only [step] at h
    split at h <;> cases h
  | leaving =>
    refine ⟨?_, Nat.le_add_left _ _⟩
    simp only [step] at h
    split at h
    · cases h
    · rename_i hlater
      exact Cursor.ahead_of_parent?_none hlater (Option.map_eq_none_iff.1 h)

/-- A move counts what it takes off the pending trees, and brings the walk nearer to its end. -/
theorem Informed.step (hw : Informed flag w) (h : w.step flag = some next) :
    Informed flag next ∧
    next.count + Tree.faultsIn next.pending = w.count + Tree.faultsIn w.pending ∧
    next.rank < w.rank := by
  obtain ⟨stage, c, count⟩ := w
  cases stage with
  | arriving =>
    obtain ⟨hcount, hpending, hrank⟩ := step_arriving h
    have hfocus : Tree.Tells flag c.focus :=
      hw _ (List.mem_append_left _ (Tree.self_mem_nodes c.focus))
    have hahead : Informed flag ⟨.leaving, c, count⟩ := fun t ht => hw t (List.mem_append_right _ ht)
    refine ⟨?_, ?_, hrank⟩
    · intro t ht
      rw [hpending, Tree.nodesAll_append] at ht
      rcases List.mem_append.1 ht with ht | ht
      · refine hw t (List.mem_append_left _ ?_)
        split at ht
        · rw [Tree.nodes_eq]
          exact List.mem_cons_of_mem _ ht
        · cases ht
      · exact hahead t ht
    · have hwhole : pending ⟨.arriving, c, count⟩ = c.focus :: c.ahead := rfl
      rw [hcount, hpending, hwhole, hfocus.faultsIn_pruned, Nat.add_assoc]
  | leaving =>
    obtain ⟨hcount, hpending, hrank⟩ := step_leaving h
    refine ⟨?_, by rw [hcount, hpending]; rfl, hrank⟩
    intro t ht
    rw [hpending] at ht
    exact hw t ht

/-- The walk comes to an end and has then counted all that was pending. -/
theorem exists_end (w : FaultWalk) (hw : Informed flag w) :
    ∃ k last, k + 2 ≤ w.rank ∧ steps flag k w = some last ∧ last.step flag = none ∧
      last.count = w.count + Tree.faultsIn w.pending := by
  cases hstep : w.step flag with
  | none =>
    obtain ⟨hpending, hrank⟩ := pending_of_step_none hstep
    refine ⟨0, w, ?_, rfl, hstep, ?_⟩
    · rwa [Nat.zero_add]
    · rw [hpending]
      rfl
  | some next =>
    obtain ⟨hnext, hsum, hless⟩ := hw.step hstep
    obtain ⟨k, last, hrank, hsteps, hend, hcount⟩ := exists_end next hnext
    refine ⟨k + 1, last, by omega, ?_, hend, by omega⟩
    rw [steps, hstep, Option.bind_some, hsteps]
termination_by w.rank

theorem faultsIn_start {t : Tree} (h : Tree.Tells flag t) :
    Tree.faultsIn (start flag t).pending = Tree.faultsIn [t] := by
  rw [start]
  split
  · rfl
  · rename_i hflag
    exact (h.faultsIn_unflagged hflag []).2.symm

end FaultWalk

/-- If the flag of a node says whether the node or one inside it is faulty, the walk that passes over
nodes without the flag ends, in fewer moves than twice as many as there are nodes, and has then
counted every faulty node of the tree, each once. A parsed program reports this number. -/
theorem pruned_walk_counts_faults (flag : Tree → Bool) (t : Tree)
    (h : ∀ u ∈ t.nodes, Tree.Tells flag u) :
    (∃ k last, k < 2 * t.nodes.length ∧
      FaultWalk.steps flag k (.start flag t) = some last ∧ last.step flag = none ∧
      last.count = t.nodes.countP Tree.isFaulty) ∧
    (∀ u, Tree.Tells Tree.hasFault u) ∧
    ∀ s, (Program.ofTree s t).errors = t.nodes.countP Tree.isFaulty := by
  have hroot : Tree.Tells flag t := h t (Tree.self_mem_nodes t)
  have hnodes : Tree.nodesAll [t] = t.nodes := List.append_nil _
  have hsome : 0 < t.nodes.length := List.length_pos_of_mem (Tree.self_mem_nodes t)
  have hall : Tree.faultsIn [t] = t.nodes.countP Tree.isFaulty := by rw [Tree.faultsIn, hnodes]
  have hinformed : FaultWalk.Informed flag (.start flag t) := by
    intro u hu
    rw [FaultWalk.start] at hu
    split at hu
    · exact h u (hnodes ▸ hu)
    · cases hu
  have hrank : (FaultWalk.start flag t).rank ≤ 2 * t.nodes.length + 1 := by
    rw [FaultWalk.start]
    split
    · exact Nat.le_of_eq (congrArg (fun l => 2 * l.length + 1) hnodes)
    · have hleft : FaultWalk.rank ⟨.leaving, .ofTree t, 0⟩ = 2 := rfl
      omega
  obtain ⟨k, last, hk, hsteps, hend, hcount⟩ := FaultWalk.exists_end _ hinformed
  refine ⟨⟨k, last, by omega, hsteps, hend, ?_⟩, Tree.tells_hasFault, fun s => ?_⟩
  · rw [hcount, FaultWalk.faultsIn_start hroot, hall]
    exact Nat.zero_add _
  · rw [← hall, ← Tree.faults_eq]
    rfl

/-- A bracket too many, then a call whose list of arguments is never closed. -/
def brokenCall : Tree :=
  .clean "program" none 0 5 [
    .node ⟨"ERROR", true, true, true, false, none, 0, 1⟩ [
      .node ⟨"]", false, false, false, false, none, 0, 1⟩ []],
    .clean "call" none 2 5 [
      .clean "identifier" (some "method") 2 3 [],
      .clean "argument_list" (some "arguments") 3 5 [
        .node ⟨"(", false, false, false, false, none, 3, 4⟩ [],
        .clean "integer" none 4 5 [],
        .node ⟨")", false, false, false, true, none, 5, 5⟩ []]]]

theorem pruned_walk_counts_faults_brokenCall :
    (∃ k last, k < 18 ∧ FaultWalk.steps Tree.hasFault k (.start Tree.hasFault brokenCall) =
      some last ∧ last.step Tree.hasFault = none ∧ last.count = 2) ∧
    (Program.ofTree (.ofString "]\nx(1") brokenCall).errors = 2 := by
  obtain ⟨hwalk, -, herrors⟩ := pruned_walk_counts_faults Tree.hasFault brokenCall
    fun u _ => Tree.tells_hasFault u
  exact ⟨hwalk, herrors _⟩

end ModelSurvey.Syntax
