import ModelSurvey.Ignore.Glob

/-! Matching patterns with paths. The cuts of a path are the places between its bytes, with one in
front and one behind. A token carries the cuts that the tokens before it may end at to those that it
may end at itself, all at once, so a match takes a few passes over the path for each token. -/
namespace ModelSurvey.Ignore
set_option autoImplicit false

/-- For each cut of a path, from the first to the last, whether it is reached. -/
abbrev Cuts := List Bool

namespace Cuts

def front (path : List UInt8) : Cuts := true :: path.map fun _ => false

/-- The cuts that one byte satisfying `p` leads to. -/
def advance (p : UInt8 → Bool) (path : List UInt8) (cuts : Cuts) : Cuts :=
  false :: List.zipWith (fun b c => c && p b) path cuts

/-- The cuts that any number of bytes satisfying `p` lead to; `reached` tells whether the bytes in
front of the first cut lead to it. -/
def spread (p : UInt8 → Bool) (reached : Bool) : List UInt8 → Cuts → Cuts
  | b :: path, c :: cuts =>
    (reached || c) :: spread p ((reached || c) && p b) path cuts
  | _, cuts => cuts.map (reached || ·)

def union (a b : Cuts) : Cuts := List.zipWith (· || ·) a b

def slashes (path : List UInt8) (cuts : Cuts) : Cuts := advance (· == slash) path cuts

def anywhere (path : List UInt8) (cuts : Cuts) : Cuts := spread (fun _ => true) false path cuts

end Cuts

/-! ## Tokens -/

open Cuts

mutual

/-- The cuts that a token may end at if it starts at one of `cuts`. -/
def ends (path : List UInt8) (cuts : Cuts) : Token → Cuts
  | .literal bytes => bytes.foldl (fun c b => advance (· == b) path c) cuts
  | .any => advance (· != slash) path cuts
  | .star => spread (· != slash) false path cuts
  | .leadingDirectories => union cuts (slashes path (anywhere path cuts))
  | .trailingDirectories => anywhere path (slashes path cuts)
  | .innerDirectories =>
    union (slashes path cuts) (slashes path (anywhere path (slashes path cuts)))
  | .oneOf c => advance c.contains path cuts
  | .alternatives choices => if allVoid choices then cuts else endsOfAny path cuts choices

def endsOfAll (path : List UInt8) (cuts : Cuts) : List Token → Cuts
  | [] => cuts
  | t :: r => if cuts.contains true then endsOfAll path (ends path cuts t) r else cuts

def endsOfAny (path : List UInt8) (cuts : Cuts) : List (List Token) → Cuts
  | [] => cuts.map fun _ => false
  | g :: r =>
    if isVoidGlob g then endsOfAny path cuts r
    else union (endsOfAll path cuts g) (endsOfAny path cuts r)

end

/-- Whether a pattern matches a whole path. A lone double star matches every path. -/
def Glob.matches (g : Glob) (path : List UInt8) : Bool :=
  match g with
  | [.leadingDirectories] => true
  | g => (endsOfAll path (front path) g).getLast? == some true

end ModelSurvey.Ignore
