import ModelSurvey.Text.Blank

/-! Constant names. A qualified name is its segments joined by `::`; a name written with a leading
`::` is rooted and means the top level. `candidates` lists what a name may denote from inside a
context, innermost reading first. -/
namespace ModelSurvey.Name
set_option autoImplicit false
open Text

def mark : String := "::"

/-- The key of a namespace given by its segments; the top level has the empty key. -/
def join (segments : List String) : String := mark.intercalate segments

/-- Cuts at each `::`, from left to right, keeping empty pieces. -/
def cutMarks : List Char → List (List Char)
  | [] => [[]]
  | ':' :: ':' :: r => [] :: cutMarks r
  | c :: r => consFirst c (cutMarks r)

/-- The non-empty segments of a name. -/
def segments (name : String) : List String :=
  ((cutMarks name.toList).filter (!·.isEmpty)).map String.ofList

def dropMarks : List Char → List Char
  | ':' :: ':' :: r => dropMarks r
  | cs => cs

/-- The name without any leading `::`. -/
def unroot (name : String) : String := String.ofList (dropMarks name.toList)

/-- The text after one leading `::`, if the name is rooted. -/
def afterMark? (name : String) : Option String :=
  match name.toList with
  | ':' :: ':' :: r => some (String.ofList r)
  | _ => none

/-- The contexts around a place, innermost first: the context itself, then each shorter one. -/
def enclosing : List String → List (List String)
  | [] => [[]]
  | s :: r => (enclosing r).map (s :: ·) ++ [[]]

/-- What `name` may denote from inside `context`, innermost first. A rooted name has one reading. -/
def candidates (name : String) (context : List String) : List String :=
  match afterMark? name with
  | some rest => [rest]
  | none => (enclosing context).map fun outer => join (outer ++ [name])

/-! ## Rooted names -/

theorem dropMarks_idem (cs : List Char) : dropMarks (dropMarks cs) = dropMarks cs := by
  fun_induction dropMarks cs with
  | case1 r ih => exact ih
  | case2 cs h =>
    unfold dropMarks
    split
    · exact absurd rfl (h _)
    · rfl

theorem unroot_idem (name : String) : unroot (unroot name) = unroot name := by
  simp [unroot, dropMarks_idem]

theorem unroot_mark_append (name : String) : unroot (mark ++ name) = unroot name := by
  rw [unroot, unroot, String.toList_append]
  rfl

/-! ## Contexts -/

theorem length_enclosing (context : List String) :
    (enclosing context).length = context.length + 1 := by
  induction context with
  | nil => rfl
  | cons s r ih => simp [enclosing, ih]

theorem getElem?_enclosing (context : List String) (k : Nat) (hk : k ≤ context.length) :
    (enclosing context)[k]? = some (context.take (context.length - k)) := by
  induction context generalizing k with
  | nil =>
    have : k = 0 := by simpa using hk
    subst this
    rfl
  | cons s r ih =>
    rw [enclosing]
    by_cases h : k ≤ r.length
    · have hlt : k < ((enclosing r).map (s :: ·)).length := by
        rw [List.length_map, length_enclosing]
        omega
      have e : (s :: r).length - k = (r.length - k) + 1 := by
        rw [List.length_cons]
        omega
      rw [List.getElem?_append_left hlt, List.getElem?_map, ih k h, e]
      rfl
    · have e : k = r.length + 1 := by
        rw [List.length_cons] at hk
        omega
      subst e
      rw [List.getElem?_append_right (Nat.le_of_eq (by rw [List.length_map, length_enclosing])),
        List.length_map, length_enclosing]
      simp

end ModelSurvey.Name
