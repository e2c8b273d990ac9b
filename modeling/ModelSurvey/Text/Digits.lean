/-! Numerals in a base up to 36, where letters count as digits from ten on in either case, and the
ranges that numbers are held in: 64 bits with sign, and code points. -/
namespace ModelSurvey.Text
set_option autoImplicit false

/-- What a digit or letter stands for, whatever the base. -/
def digitWeight? (c : Char) : Option Nat :=
  if '0' ≤ c ∧ c ≤ '9' then some (c.toNat - '0'.toNat)
  else if 'a' ≤ c ∧ c ≤ 'z' then some (c.toNat - 'a'.toNat + 10)
  else if 'A' ≤ c ∧ c ≤ 'Z' then some (c.toNat - 'A'.toNat + 10)
  else none

def digit? (base : Nat) (c : Char) : Option Nat := (digitWeight? c).filter (· < base)

/-- Reads further digits after those that gave `acc`. -/
def digitsFrom? (base : Nat) : Nat → List Char → Option Nat
  | acc, [] => some acc
  | acc, c :: r => (digit? base c).bind fun d => digitsFrom? base (acc * base + d) r

def numeral? (base : Nat) : List Char → Option Nat
  | [] => none
  | c :: r => digitsFrom? base 0 (c :: r)

/-- A numeral that may have one plus sign in front. -/
def plusNumeral? (base : Nat) : List Char → Option Nat
  | '+' :: r => numeral? base r
  | cs => numeral? base cs

/-- A numeral that may have one sign in front. -/
def signedNumeral? (base : Nat) : List Char → Option Int
  | '-' :: r => (numeral? base r).map fun n => -(n : Int)
  | cs => (plusNumeral? base cs).map fun n => (n : Int)

theorem digit?_lt {base d : Nat} {c : Char} (h : digit? base c = some d) : d < base := by
  rw [digit?, Option.filter_eq_some_iff] at h
  exact of_decide_eq_true h.2

/-! ## Ranges -/

def word? (n : Int) : Option Int :=
  if -0x8000000000000000 ≤ n ∧ n < 0x8000000000000000 then some n else none

def scalar? (n : Nat) : Option Char := if n.isValidChar then some (Char.ofNat n) else none

end ModelSurvey.Text
