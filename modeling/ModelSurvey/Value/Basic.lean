/-! Values of literals. Strings and symbols are different values but are interchangeable as names. A
hash is a list of pairs in order of first insertion. -/
namespace ModelSurvey
set_option autoImplicit false

inductive Value where
  | nil
  | bool (b : Bool)
  | integer (n : Int)
  | string (text : String)
  | symbol (name : String)
  | array (items : List Value)
  | hash (pairs : List (Value × Value))

namespace Value

instance : Inhabited Value := ⟨nil⟩

/-! ## Equality -/

mutual

def same : Value → Value → Bool
  | nil, nil => true
  | bool a, bool b => a == b
  | integer m, integer n => m == n
  | string s, string t => s == t
  | symbol s, symbol t => s == t
  | array xs, array ys => sameItems xs ys
  | hash ps, hash qs => samePairs ps qs
  | _, _ => false

def sameItems : List Value → List Value → Bool
  | [], [] => true
  | x :: xs, y :: ys => same x y && sameItems xs ys
  | _, _ => false

def samePairs : List (Value × Value) → List (Value × Value) → Bool
  | [], [] => true
  | (k, v) :: ps, (l, w) :: qs => same k l && same v w && samePairs ps qs
  | _, _ => false

end

mutual

theorem eq_of_same : ∀ {v w : Value}, same v w = true → v = w
  | nil, w, h => by cases w <;> simp_all [same]
  | bool _, w, h => by cases w <;> simp_all [same]
  | integer _, w, h => by cases w <;> simp_all [same]
  | string _, w, h => by cases w <;> simp_all [same]
  | symbol _, w, h => by cases w <;> simp_all [same]
  | array xs, w, h => by
    cases w <;> simp only [same, Bool.false_eq_true] at h
    rw [eq_of_sameItems h]
  | hash ps, w, h => by
    cases w <;> simp only [same, Bool.false_eq_true] at h
    rw [eq_of_samePairs h]

theorem eq_of_sameItems : ∀ {xs ys : List Value}, sameItems xs ys = true → xs = ys
  | [], ys, h => by cases ys <;> simp_all [sameItems]
  | x :: xs, ys, h => by
    cases ys with
    | nil => simp [sameItems] at h
    | cons y ys =>
      rw [sameItems, Bool.and_eq_true] at h
      rw [eq_of_same h.1, eq_of_sameItems h.2]

theorem eq_of_samePairs : ∀ {ps qs : List (Value × Value)}, samePairs ps qs = true → ps = qs
  | [], qs, h => by cases qs <;> simp_all [samePairs]
  | (k, v) :: ps, qs, h => by
    cases qs with
    | nil => simp [samePairs] at h
    | cons q qs =>
      obtain ⟨l, w⟩ := q
      rw [samePairs, Bool.and_eq_true, Bool.and_eq_true] at h
      rw [eq_of_same h.1.1, eq_of_same h.1.2, eq_of_samePairs h.2]

end

mutual

theorem same_self : ∀ v : Value, same v v = true
  | nil => by simp [same]
  | bool _ => by simp [same]
  | integer _ => by simp [same]
  | string _ => by simp [same]
  | symbol _ => by simp [same]
  | array xs => by rw [same, sameItems_self xs]
  | hash ps => by rw [same, samePairs_self ps]

theorem sameItems_self : ∀ xs : List Value, sameItems xs xs = true
  | [] => by simp [sameItems]
  | x :: xs => by rw [sameItems, same_self x, sameItems_self xs, Bool.and_self]

theorem samePairs_self : ∀ ps : List (Value × Value), samePairs ps ps = true
  | [] => by simp [samePairs]
  | (k, v) :: ps => by
    rw [samePairs, same_self k, same_self v, samePairs_self ps]
    rfl

end

instance : DecidableEq Value := fun v w =>
  decidable_of_iff (same v w = true) ⟨eq_of_same, fun h => h ▸ same_self v⟩

/-! ## Views -/

def name? : Value → Option String
  | string s | symbol s => some s
  | _ => none

def array? : Value → Option (List Value)
  | array items => some items
  | _ => none

def hash? : Value → Option (List (Value × Value))
  | hash pairs => some pairs
  | _ => none

def bool? : Value → Option Bool
  | bool b => some b
  | _ => none

def isNil : Value → Bool
  | nil => true
  | _ => false

/-- Everything but `nil` and `false` is truthy. -/
def isTruthy : Value → Bool
  | nil | bool false => false
  | _ => true

/-! ## Hashes -/

/-- Puts a value under a key: in place of an equal key's value, else at the end. -/
def insert (key value : Value) : List (Value × Value) → List (Value × Value)
  | [] => [(key, value)]
  | (k, v) :: r => if k = key then (k, value) :: r else (k, v) :: insert key value r

/-- The value of the first pair whose key is a string or symbol with this text. -/
def get? (v : Value) (key : String) : Option Value :=
  (v.hash?.getD []).findSome? fun p => if p.1.name? = some key then some p.2 else none

end Value

end ModelSurvey
