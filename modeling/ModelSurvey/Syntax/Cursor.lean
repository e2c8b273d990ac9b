import ModelSurvey.Syntax.Tree

/-! A cursor on a concrete tree, and the count of faulty nodes as a walk with it. The walk enters
only subtrees that hold a fault, goes on to the next sibling, and climbs until there is one. -/
namespace ModelSurvey.Syntax
set_option autoImplicit false

/-- A node, the siblings after it, and the same for each of its ancestors, nearest first. -/
structure Cursor where
  focus : Tree
  later : List Tree
  above : List (Tree × List Tree)

namespace Cursor

def ofTree (t : Tree) : Cursor := ⟨t, [], []⟩

/-! ## Moves -/

def firstChild? (c : Cursor) : Option Cursor :=
  match c.focus.children with
  | [] => none
  | t :: r => some ⟨t, r, (c.focus, c.later) :: c.above⟩

def nextSibling? (c : Cursor) : Option Cursor :=
  match c.later with
  | [] => none
  | t :: r => some ⟨t, r, c.above⟩

/-- The next sibling of the nearest ancestor that has one. -/
def uncle? : List (Tree × List Tree) → Option Cursor
  | [] => none
  | (_, t :: r) :: above => some ⟨t, r, above⟩
  | (_, []) :: above => uncle? above

/-- The next node after the subtree at the cursor. -/
def skip? (c : Cursor) : Option Cursor := c.nextSibling?.or (uncle? c.above)

/-- The next node of the walk: inside a subtree with a fault, behind any other. -/
def next? (c : Cursor) : Option Cursor :=
  (if c.focus.hasFault then c.firstChild? else none).or c.skip?

/-! ## The walk -/

def pending : List (Tree × List Tree) → Nat
  | [] => 0
  | (_, r) :: above => Tree.sizeAll r + pending above

/-- The number of nodes at the cursor and after it. -/
def remaining (c : Cursor) : Nat := c.focus.size + Tree.sizeAll c.later + pending c.above

theorem uncle?_remaining {above : List (Tree × List Tree)} {d : Cursor}
    (h : uncle? above = some d) : d.remaining ≤ pending above := by
  induction above with
  | nil => simp [uncle?] at h
  | cons e above ih =>
    obtain ⟨t, r⟩ := e
    cases r with
    | nil =>
      have := ih (by simpa [uncle?] using h)
      simp only [pending, Tree.sizeAll]
      omega
    | cons u r =>
      simp only [uncle?, Option.some.injEq] at h
      subst h
      simp only [remaining, pending, Tree.sizeAll]
      omega

theorem skip?_remaining {c d : Cursor} (h : c.skip? = some d) : d.remaining < c.remaining := by
  obtain ⟨t, later, above⟩ := c
  have ht := Tree.size_pos t
  cases later with
  | nil =>
    have hd : d.remaining ≤ pending above :=
      uncle?_remaining (by simpa [skip?, nextSibling?] using h)
    show d.remaining < t.size + Tree.sizeAll [] + pending above
    omega
  | cons u r =>
    simp only [skip?, nextSibling?, Option.some_or, Option.some.injEq] at h
    subst h
    simp only [remaining, Tree.sizeAll]
    omega

theorem firstChild?_remaining {c d : Cursor} (h : c.firstChild? = some d) :
    d.remaining < c.remaining := by
  obtain ⟨⟨a, cs⟩, later, above⟩ := c
  cases cs with
  | nil => simp [firstChild?, Tree.children] at h
  | cons u r =>
    simp only [firstChild?, Tree.children, Option.some.injEq] at h
    subst h
    simp only [remaining, pending, Tree.size, Tree.sizeAll]
    omega

theorem next?_remaining {c d : Cursor} (h : c.next? = some d) : d.remaining < c.remaining := by
  rw [next?] at h
  rcases Option.or_eq_some_iff.1 h with h | ⟨_, h⟩
  · split at h
    · exact firstChild?_remaining h
    · simp at h
  · exact skip?_remaining h

/-- The number of faulty nodes that the walk meets from the cursor on. -/
def countFaults (c : Cursor) : Nat :=
  let here := if Tree.isFault c.focus.label then 1 else 0
  match _h : c.next? with
  | none => here
  | some d => here + countFaults d
termination_by c.remaining
decreasing_by exact next?_remaining _h

end Cursor

namespace Tree

/-- The number of faulty nodes of the tree. -/
def faults (t : Tree) : Nat := if t.hasFault then (Cursor.ofTree t).countFaults else 0

end Tree

end ModelSurvey.Syntax
