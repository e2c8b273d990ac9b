/-! Path patterns. A star or question mark stands for bytes other than a slash, a double star between
slashes for any directories, brackets for one byte out of a class and braces for alternatives; a
backslash takes the next character as it is. A pattern that nests too deep cannot be used. -/
namespace ModelSurvey.Ignore
set_option autoImplicit false

/-- A set of bytes given by closed ranges, or its complement. -/
structure ByteClass where
  negated : Bool
  ranges : List (UInt8 × UInt8)
deriving DecidableEq, Repr, Inhabited

namespace ByteClass

def contains (c : ByteClass) (b : UInt8) : Bool :=
  (c.ranges.any fun r => decide (r.1 ≤ b ∧ b ≤ r.2)) != c.negated

def isSound (c : ByteClass) : Bool := c.ranges.all fun r => decide (r.1 ≤ r.2)

end ByteClass

inductive Token where
  | literal (bytes : List UInt8)
  | any
  | star
  | leadingDirectories
  | trailingDirectories
  | innerDirectories
  | oneOf (c : ByteClass)
  | alternatives (choices : List (List Token))

abbrev Glob := List Token

/-! ## Reading patterns -/

def slash : UInt8 := 0x2f

def charBytes (c : Char) : List UInt8 := (String.singleton c).toUTF8.data.toList

/-- The byte ranges of a range of characters. Only the last byte of the lower and the first byte of
the upper character span a range; their other bytes stand alone. -/
def rangeBytes (lo hi : Char) : List (UInt8 × UInt8) :=
  if lo = hi then (charBytes lo).map fun b => (b, b)
  else
    let a := charBytes lo
    let z := charBytes hi
    a.dropLast.map (fun b => (b, b)) ++ [(a.getLast?.getD 0, z.head?.getD 0)] ++
      z.tail.map fun b => (b, b)

/-- The inside of a class: closed ranges of characters, in reverse, and whether a dash is open. -/
structure ClassState where
  ranges : List (Char × Char)
  dashOpen : Bool

namespace ClassState

/-- The class after one more character, unless a range would run backwards. -/
def add (s : ClassState) (c : Char) : Option ClassState :=
  match s.dashOpen, s.ranges with
  | true, (lo, _) :: r => if c < lo then none else some ⟨(lo, c) :: r, false⟩
  | _, _ => some ⟨(c, c) :: s.ranges, false⟩

def finish (s : ClassState) (negated : Bool) : ByteClass :=
  let all := if s.dashOpen then ('-', '-') :: s.ranges else s.ranges
  ⟨negated, all.reverse.flatMap fun r => rangeBytes r.1 r.2⟩

end ClassState

/-- What became of the text after an opening bracket. -/
inductive ClassReading where
  | closed (s : ClassState) (rest : List Char)
  | unclosed
  | backwards

/-- Reads a class up to its closing bracket; a bracket or dash right at the start is a member. -/
def readClass (s : ClassState) (first : Bool) : List Char → ClassReading
  | [] => .unclosed
  | c :: r =>
    if c = ']' ∧ first = false then .closed s r
    else if c = '-' ∧ first = false ∧ s.dashOpen = false then
      readClass { s with dashOpen := true } false r
    else match s.add c with
      | some s' => readClass s' false r
      | none => .backwards

theorem length_readClass {s s' : ClassState} {first : Bool} {cs rest : List Char}
    (h : readClass s first cs = .closed s' rest) : rest.length < cs.length := by
  fun_induction readClass s first cs with
  | case1 => cases h
  | case2 => cases h; exact Nat.lt_succ_self _
  | case3 _ _ _ _ _ _ ih => exact Nat.lt_succ_of_lt (ih h)
  | case4 _ _ _ _ _ _ _ _ ih => exact Nat.lt_succ_of_lt (ih h)
  | case5 => cases h

/-- The characters of a class after the sign that negates it, and whether there is one. -/
def classStart : List Char → Bool × List Char
  | '!' :: r => (true, r)
  | '^' :: r => (true, r)
  | cs => (false, cs)

theorem length_classStart (cs : List Char) : (classStart cs).2.length ≤ cs.length := by
  unfold classStart
  split <;> simp

/-- Open groups, innermost first: for each its finished alternatives and its current one, all in
reverse. The last group is the pattern itself and has no alternatives. -/
structure Group where
  done : List Glob
  current : Glob

structure Reading where
  inner : List Group
  outer : Glob
  before : Option Char
  bracketsPlain : Bool

namespace Reading

def start : Reading := ⟨[], [], none, false⟩

/-- The tokens of the alternative being read, in reverse. -/
def current (r : Reading) : Glob :=
  match r.inner with
  | [] => r.outer
  | g :: _ => g.current

def setCurrent (r : Reading) (l : Glob) : Reading :=
  match r.inner with
  | [] => { r with outer := l }
  | g :: gs => { r with inner := { g with current := l } :: gs }

def push (r : Reading) (t : Token) : Reading := r.setCurrent (t :: r.current)

def after (r : Reading) (c : Char) : Reading := { r with before := some c }

/-- Closes the innermost group, unless none is open. -/
def closeGroup (r : Reading) : Option Reading :=
  match r.inner with
  | [] => none
  | g :: gs =>
    let choices := ((g.current :: g.done).reverse).map List.reverse
    some (({ r with inner := gs } : Reading).push (.alternatives choices))

/-- Starts the next alternative, or stands for itself outside of groups. -/
def comma (r : Reading) : Reading :=
  match r.inner with
  | [] => r.push (.literal (charBytes ','))
  | g :: gs => { r with inner := ⟨g.current :: g.done, []⟩ :: gs }

/-- Replaces the slash before a double star. -/
def replaceLast (r : Reading) (t : Token) : Reading :=
  match r.current with
  | .leadingDirectories :: _ => r
  | .trailingDirectories :: _ => r
  | _ :: l => r.setCurrent (t :: l)
  | [] => r.push t

/-- The meaning of a double star that `next` follows, and whether it takes a slash along. -/
def doubleStar (r : Reading) (next : Option Char) : Reading × Bool :=
  let plain := (r.push .star).push .star
  if r.current.isEmpty then
    match next with
    | none => (r.push .leadingDirectories, false)
    | some '/' => (r.push .leadingDirectories, true)
    | some _ => (plain, false)
  else if r.before ≠ some '/' ∧
      (r.inner.isEmpty ∨ (r.before ≠ some ',' ∧ r.before ≠ some '\x7b')) then (plain, false)
  else
    match next with
    | none => (r.replaceLast .trailingDirectories, false)
    | some '/' => (r.replaceLast .innerDirectories, true)
    | some c =>
      if (c = ',' ∨ c = '\x7d') ∧ r.inner ≠ [] then (r.replaceLast .trailingDirectories, false)
      else (plain, false)

end Reading

/-- Reads the rest of a pattern. With `lenient` a bracket that is never closed stands for itself,
and so do all later ones. -/
def readTokens (lenient : Bool) (r : Reading) (cs : List Char) : Option Glob :=
  match cs with
  | [] => if r.inner.isEmpty then some r.outer.reverse else none
  | '?' :: rest => readTokens lenient ((r.push .any).after '?') rest
  | '*' :: '*' :: rest =>
    match r.doubleStar rest.head?, rest with
    | (r', true), _ :: rest' => readTokens lenient (r'.after '/') rest'
    | (r', _), rest => readTokens lenient (r'.after '*') rest
  | '*' :: rest => readTokens lenient ((r.push .star).after '*') rest
  | '\x7b' :: rest =>
    readTokens lenient (({ r with inner := ⟨[], []⟩ :: r.inner } : Reading).after '\x7b') rest
  | '\x7d' :: rest =>
    match r.closeGroup with
    | some r' => readTokens lenient (r'.after '\x7d') rest
    | none => none
  | ',' :: rest => readTokens lenient (r.comma.after ',') rest
  | ['\\'] => none
  | '\\' :: c :: rest => readTokens lenient ((r.push (.literal (charBytes c))).after c) rest
  | '[' :: rest =>
    if r.bracketsPlain then readTokens lenient ((r.push (.literal (charBytes '['))).after '[') rest
    else
      match _h : readClass ⟨[], false⟩ true (classStart rest).2 with
      | .closed s rest' =>
        readTokens lenient ((r.push (.oneOf (s.finish (classStart rest).1))).after ']') rest'
      | .unclosed =>
        if lenient then
          readTokens lenient
            (({ r.push (.literal (charBytes '[')) with bracketsPlain := true } : Reading).after '[')
            rest
        else none
      | .backwards => none
  | c :: rest => readTokens lenient ((r.push (.literal (charBytes c))).after c) rest
termination_by cs.length
decreasing_by
  all_goals simp only [List.length_cons]
  all_goals try omega
  have h := length_readClass _h
  have := length_classStart rest
  omega

def Glob.read? (lenient : Bool) (pattern : List Char) : Option Glob :=
  readTokens lenient .start pattern

/-! ## Empty patterns -/

mutual

/-- Whether a token cannot take part in a match, because it offers no alternative with content. -/
def isVoid : Token → Bool
  | .alternatives choices => allVoid choices
  | _ => false

def isVoidGlob : List Token → Bool
  | [] => true
  | t :: r => isVoid t && isVoidGlob r

def allVoid : List (List Token) → Bool
  | [] => true
  | g :: r => isVoidGlob g && allVoid r

end

/-! ## Usable patterns -/

mutual

def isSound : Token → Bool
  | .oneOf c => c.isSound
  | .alternatives choices => allSound choices
  | _ => true

def isSoundGlob : List Token → Bool
  | [] => true
  | t :: r => isSound t && isSoundGlob r

def allSound : List (List Token) → Bool
  | [] => true
  | g :: r => isSoundGlob g && allSound r

end

mutual

/-- The number of parts in a row that a token stands for. -/
def parts : Token → Nat
  | .literal bytes => bytes.length
  | .trailingDirectories => 2
  | .alternatives choices => if allVoid choices then 0 else 1
  | _ => 1

def partsOfGlob : List Token → Nat
  | [] => 0
  | t :: r => parts t + partsOfGlob r

end

mutual

/-- How deep a token nests. A class is a level and so are several ranges in it, a repetition, a
choice, the group around it and a row of several parts. -/
def nesting : Token → Nat
  | .literal _ => 0
  | .any => 1
  | .star => 2
  | .leadingDirectories => 4
  | .trailingDirectories => 1
  | .innerDirectories => 4
  | .oneOf c => if c.ranges.length = 1 then 1 else 2
  | .alternatives choices =>
    if allVoid choices then 0
    else nestingOfAny choices + if 1 < choices.countP (!isVoidGlob ·) then 2 else 1

def nestingOfAll : List Token → Nat
  | [] => 0
  | t :: r => max (nesting t) (nestingOfAll r)

def nestingOfAny : List (List Token) → Nat
  | [] => 0
  | g :: r => max (nestingOfAll g + if 1 < partsOfGlob g then 1 else 0) (nestingOfAny r)

end

def nestingLimit : Nat := 250

/-- Whether the classes of a pattern are sound and it does not nest too deep. -/
def Glob.isUsable (g : Glob) : Bool := isSoundGlob g && decide (nestingOfAll g < nestingLimit)

end ModelSurvey.Ignore
