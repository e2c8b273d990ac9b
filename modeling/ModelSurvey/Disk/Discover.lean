import ModelSurvey.Disk.Basic
import ModelSurvey.Ignore.Rules

/-! Finding source files: a walk through the directories below each root. Extra patterns hide first;
then the ignore files of the directories around a path decide, nearest first. The rules of version
control count only where one of those directories holds a `.git` or a `.jj`, and no further up than
the first that does. Links are followed on request, but never back into a directory the walk came through. -/
namespace ModelSurvey.Disk
set_option autoImplicit false
open Ignore

/-! ## Ignore files -/

/-- The ignore rules of one directory, `depth` names below the top. -/
structure Level where
  depth : Nat
  versioned : Bool
  plain : List Rule
  tracked : List Rule
  excluded : List Rule

def bytesAt (d : Disk) (location : List String) (pieces : List String) : List UInt8 :=
  match d.follow linkLimit location pieces with
  | .error _ => []
  | .ok l =>
    match d.item? l with
    | some (.file f) => f.source.bytes
    | _ => []

def level (d : Disk) (location : List String) (depth : Nat) : Level where
  depth := depth
  versioned := [".git", ".jj"].any fun n => (d.follow linkLimit location [n]).toOption.isSome
  plain := rulesOf (d.bytesAt location [".ignore"])
  tracked := rulesOf (d.bytesAt location [".gitignore"])
  excluded := rulesOf (d.bytesAt location [".git", "info", "exclude"])

/-- The levels of the directories above a location, nearest first. -/
def levelsAbove (d : Disk) (location : List String) : List Level :=
  ((List.range location.length).map fun n => d.level (location.take n) n).reverse

/-- The levels up to the first that is versioned. -/
def versionedReach : List Level → List Level
  | [] => []
  | l :: r => if l.versioned then [l] else l :: versionedReach r

/-- What the ignore files say about a path, given by all names that lead to it. -/
def fileVerdict? (levels : List Level) (names : List String) (directory : Bool) : Option Verdict :=
  let ask (rules : Level → List Rule) (l : Level) :=
    verdict? (rules l) (names.drop l.depth) directory
  let reach := if levels.any Level.versioned then versionedReach levels else []
  ((levels.findSome? (ask Level.plain)).or (reach.findSome? (ask Level.tracked))).or
    (reach.findSome? (ask Level.excluded))

/-- Patterns that hide on top of the ignore files. -/
def extraRules (patterns : List String) : List Rule :=
  soundRules (patterns.filterMap fun p => Rule.ofLine? false ('!' :: p.toList))

/-! ## Children of a directory -/

structure Child where
  name : String
  location : List String
  directory : Bool

/-- What a name in a directory stands for: a file, or a directory that can be entered. -/
def child? (d : Disk) (links : Bool) (ancestors : List (List String)) (location : List String)
    (name : String) : Option Child :=
  match d.item? (location ++ [name]) with
  | none => none
  | some (.file _) => some ⟨name, location ++ [name], false⟩
  | some .directory => some ⟨name, location ++ [name], true⟩
  | some (.link _) =>
    if !links then none
    else match d.follow linkLimit location [name] with
      | .error _ => none
      | .ok target =>
        match d.item? target with
        | some (.file _) => some ⟨name, target, false⟩
        | some .directory => if target ∈ ancestors then none else some ⟨name, target, true⟩
        | _ => none

def children (d : Disk) (links : Bool) (ancestors : List (List String)) (location : List String) :
    List Child := (d.names location).filterMap (d.child? links ancestors location)

def directories (d : Disk) : List (List String) :=
  [] :: d.items.filterMap fun e =>
    match e.2 with
    | .directory => some e.1
    | _ => none

theorem mem_directories {d : Disk} {l : List String} (h : d.item? l = some .directory) :
    l ∈ d.directories := by
  unfold item? at h
  split at h
  · exact List.mem_cons_self ..
  · obtain ⟨a, b, e, -⟩ := List.lookup_eq_some_iff.1 h
    refine List.mem_cons_of_mem _ (List.mem_filterMap.2 ⟨(l, .directory), ?_, rfl⟩)
    rw [e]
    simp

theorem child?_directory {d : Disk} {links : Bool} {ancestors : List (List String)}
    {location : List String} {name : String} {c : Child}
    (h : d.child? links ancestors location name = some c) (hd : c.directory = true) :
    c.location ∈ d.directories ∧
      (c.location ∉ ancestors ∨ c.location = location ++ [name]) := by
  unfold child? at h
  split at h
  · cases h
  · cases h
    cases hd
  · rename_i he
    cases h
    exact ⟨mem_directories he, Or.inr rfl⟩
  · split at h
    · cases h
    · split at h
      · cases h
      · split at h
        · cases h
          cases hd
        · rename_i he
          split at h
          · cases h
          · rename_i hn
            cases h
            exact ⟨mem_directories he, Or.inl hn⟩
        · cases h

/-! ## The walk -/

/-- The number of directories that the walk has not come through. -/
def unseen (d : Disk) (ancestors : List (List String)) : Nat :=
  d.directories.countP fun l => decide (l ∉ ancestors)

def depth (d : Disk) : Nat := d.directories.foldr (fun l n => max l.length n) 0

theorem length_le_depth {d : Disk} {l : List String} (h : l ∈ d.directories) :
    l.length ≤ d.depth := by
  unfold depth
  generalize d.directories = ls at h
  induction ls with
  | nil => cases h
  | cons a r ih =>
    rw [List.foldr_cons]
    rcases List.mem_cons.1 h with rfl | h
    · exact Nat.le_max_left ..
    · exact Nat.le_trans (ih h) (Nat.le_max_right ..)

theorem unseen_cons_le (d : Disk) (ancestors : List (List String)) (l : List String) :
    d.unseen (l :: ancestors) ≤ d.unseen ancestors := by
  refine List.countP_mono_left fun n _ h => ?_
  simp only [decide_eq_true_eq, List.mem_cons, not_or] at h ⊢
  exact h.2

theorem unseen_cons_lt {d : Disk} {ancestors : List (List String)} {l : List String}
    (hl : l ∈ d.directories) (ha : l ∉ ancestors) :
    d.unseen (l :: ancestors) < d.unseen ancestors := by
  have hle : ∀ r : List (List String), r.countP (fun n => decide (n ∉ l :: ancestors)) ≤
      r.countP (fun n => decide (n ∉ ancestors)) := fun r => by
    refine List.countP_mono_left fun n _ h => ?_
    simp only [decide_eq_true_eq, List.mem_cons, not_or] at h ⊢
    exact h.2
  unfold unseen
  obtain ⟨a, b, e⟩ := List.append_of_mem hl
  rw [e, List.countP_append, List.countP_append, List.countP_cons_of_neg (by simp),
    List.countP_cons_of_pos (by simpa using ha)]
  have h1 := hle a
  have h2 := hle b
  omega

/-- A step into a directory leads to one the walk has not come through, or goes one name deeper. -/
theorem step_into {d : Disk} {links : Bool} {ancestors : List (List String)}
    {location : List String} {name : String} {c : Child}
    (h : d.child? links (location :: ancestors) location name = some c) (hd : c.directory = true) :
    d.unseen (c.location :: location :: ancestors) < d.unseen (location :: ancestors) ∨
      d.unseen (c.location :: location :: ancestors) = d.unseen (location :: ancestors) ∧
        d.depth - c.location.length < d.depth - location.length := by
  obtain ⟨hl, hn⟩ := child?_directory h hd
  by_cases hm : c.location ∈ location :: ancestors
  · have e : c.location = location ++ [name] := hn.resolve_left (fun h => h hm)
    have hle := unseen_cons_le d (location :: ancestors) c.location
    rcases Nat.lt_or_eq_of_le hle with hlt | heq
    · exact Or.inl hlt
    · refine Or.inr ⟨heq, ?_⟩
      have hdepth := length_le_depth hl
      have hlen : c.location.length = location.length + 1 := by
        rw [e, List.length_append, List.length_singleton]
      omega
  · exact Or.inl (unseen_cons_lt hl hm)

structure Walk where
  disk : Disk
  links : Bool
  extra : List Rule
  /-- The number of names from the top to the root of the walk. -/
  base : Nat

namespace Walk

/-- Whether a path is hidden by the extra rules, or else by the ignore files. -/
def hides (w : Walk) (levels : List Level) (names : List String) (directory : Bool) : Bool :=
  (verdict? w.extra (names.drop w.base) directory).isSome ||
    fileVerdict? levels names directory == some .hidden

/-- The files with extension `rb` below a directory, given by its location, the names that lead to
it and its path. -/
def files (w : Walk) (ancestors : List (List String)) (levels : List Level)
    (location names : List String) (path : Path) : List Path :=
  let inside := w.disk.level location names.length :: levels
  (w.disk.children w.links (location :: ancestors) location).attach.flatMap fun c =>
    let leading := names ++ [c.1.name]
    if w.hides inside leading c.1.directory then []
    else if _h : c.1.directory = true then
      files w (location :: ancestors) inside c.1.location leading (path.join c.1.name)
    else if Path.extensionOf c.1.name == some "rb" then [path.join c.1.name] else []
termination_by (w.disk.unseen (location :: ancestors), w.disk.depth - location.length)
decreasing_by
  obtain ⟨name, -, hc⟩ := List.mem_filterMap.1 c.2
  rcases step_into hc _h with hlt | ⟨heq, hlt⟩
  · exact Prod.Lex.left _ _ hlt
  · show Prod.Lex _ _ (w.disk.unseen (c.1.location :: location :: ancestors), _) _
    rw [heq]
    exact Prod.Lex.right _ hlt

end Walk

/-! ## Discovery -/

/-- The source files below one directory, if it is one. -/
def filesBelow (d : Disk) (links : Bool) (extra : List Rule) (path : Path) : List Path :=
  match d.locate path with
  | .error _ => []
  | .ok location =>
    match d.item? location with
    | some .directory =>
      Walk.files ⟨d, links, extra, location.length⟩ [] (d.levelsAbove location) location location
        path
    | _ => []

/-- The first of each stretch of paths to one place. -/
def dropRepeats : List Path → List Path
  | [] => []
  | p :: r =>
    match dropRepeats r with
    | [] => [p]
    | q :: s => if p.samePlace q then p :: s else p :: q :: s

/-- The paths in order of their components, each place once. -/
def inOrder (l : List Path) : List Path := dropRepeats (l.mergeSort fun p q => !q.before p)

/-- The source files below some roots of a project. -/
def sourceFiles (d : Disk) (roots patterns : List String) (links : Bool) : List Path :=
  inOrder (roots.flatMap fun r => d.filesBelow links (extraRules patterns) (d.top.join r))

end ModelSurvey.Disk
