import ModelSurvey.Text.Digits

/-! Numbers, dates and times of TOML. Each reader recognises the longest form at the start of a text
and gives what follows. Digits may be parted by single underscores; a date must exist in the
calendar, and integers fit 64 bits with sign. -/
namespace ModelSurvey.Toml
set_option autoImplicit false
open Text

/-! ## Runs of digits -/

/-- Digits of a base after a first one, without their underscores, and what follows. -/
def moreDigits (base : Nat) : List Char → Option (List Char × List Char)
  | [] => some ([], [])
  | '_' :: [] => none
  | '_' :: d :: r =>
    if (digit? base d).isSome then (moreDigits base r).map fun m => (d :: m.1, m.2) else none
  | d :: r =>
    if (digit? base d).isSome then (moreDigits base r).map fun m => (d :: m.1, m.2)
    else some ([], d :: r)

def digitRun (base : Nat) : List Char → Option (List Char × List Char)
  | [] => none
  | d :: r =>
    if (digit? base d).isSome then (moreDigits base r).map fun m => (d :: m.1, m.2) else none

/-- A decimal run without a leading zero; a zero stands alone. -/
def decimalRun : List Char → Option (List Char × List Char)
  | '0' :: r => some (['0'], r)
  | cs => digitRun 10 cs

def signOf : List Char → Bool × List Char
  | '-' :: r => (true, r)
  | '+' :: r => (false, r)
  | cs => (false, cs)

/-! ## Dates and times -/

def twoDigits? : List Char → Option (Nat × List Char)
  | a :: b :: r => (digit? 10 a).bind fun x => (digit? 10 b).map fun y => (10 * x + y, r)
  | _ => none

def twoDigitsIn? (lo hi : Nat) (cs : List Char) : Option (Nat × List Char) :=
  (twoDigits? cs).filter fun p => decide (lo ≤ p.1 ∧ p.1 ≤ hi)

def expect? (c : Char) : List Char → Option (List Char)
  | d :: r => if d = c then some r else none
  | [] => none

def isLeapYear (y : Nat) : Bool := y % 4 == 0 && (y % 100 != 0 || y % 400 == 0)

def daysIn (year month : Nat) : Nat :=
  if month = 2 then (if isLeapYear year then 29 else 28)
  else if month = 4 ∨ month = 6 ∨ month = 9 ∨ month = 11 then 30
  else 31

def date? (cs : List Char) : Option (List Char) := do
  let (century, cs) ← twoDigits? cs
  let (years, cs) ← twoDigits? cs
  let cs ← expect? '-' cs
  let (month, cs) ← twoDigitsIn? 1 12 cs
  let cs ← expect? '-' cs
  let (_, cs) ← twoDigitsIn? 1 (daysIn (100 * century + years) month) cs
  some cs

/-- A fraction of a second, if there is one. -/
def secondFraction (cs : List Char) : List Char :=
  match cs with
  | '.' :: d :: r => if d.isDigit then r.dropWhile Char.isDigit else cs
  | _ => cs

/-- A time of day, and what follows it. A minute may have a leap second. -/
def time? (cs : List Char) : Option (List Char) := do
  let (_, cs) ← twoDigitsIn? 0 23 cs
  let cs ← expect? ':' cs
  let (_, cs) ← twoDigitsIn? 0 59 cs
  let cs ← expect? ':' cs
  let (_, cs) ← twoDigitsIn? 0 60 cs
  some (secondFraction cs)

def offset? (cs : List Char) : Option (List Char) :=
  match cs with
  | 'Z' :: r | 'z' :: r => some r
  | '+' :: r | '-' :: r => do
    let (_, r) ← twoDigitsIn? 0 23 r
    let r ← expect? ':' r
    let (_, r) ← twoDigitsIn? 0 59 r
    some r
  | _ => none

/-- The time that may follow a date, with its offset. -/
def timeAfterDate (cs : List Char) : List Char :=
  match cs with
  | c :: r =>
    if c = 'T' ∨ c = 't' ∨ c = ' ' then
      match time? r with
      | some rest => (offset? rest).getD rest
      | none => cs
    else cs
  | [] => []

def dateTime? (cs : List Char) : Option (List Char) :=
  match date? cs with
  | some r => some (timeAfterDate r)
  | none => time? cs

/-! ## Integers -/

/-- The value of an integer, and what follows it. Other bases take no sign. -/
def integer? (cs : List Char) : Option (Int × List Char) :=
  let based (base : Nat) (r : List Char) :=
    (digitRun base r).bind fun m =>
      ((numeral? base m.1).bind fun n => word? n).map fun n => (n, m.2)
  match cs with
  | '0' :: 'x' :: r => based 16 r
  | '0' :: 'o' :: r => based 8 r
  | '0' :: 'b' :: r => based 2 r
  | cs =>
    let (negative, unsigned) := signOf cs
    (decimalRun unsigned).bind fun m =>
      ((numeral? 10 m.1).bind fun n => word? (if negative then -(n : Int) else n)).map fun n =>
        (n, m.2)

/-! ## Floats -/

/-- The exponent of a float, and what follows it. -/
def exponent? (cs : List Char) : Option (Int × List Char) :=
  match cs with
  | c :: r =>
    if c = 'e' ∨ c = 'E' then
      let (negative, digits) := signOf r
      (digitRun 10 digits).bind fun m => (numeral? 10 m.1).map fun n =>
        (if negative then -(n : Int) else n, m.2)
    else none
  | [] => none

/-- The digits behind the point of a float, and what follows them. -/
def fraction? (cs : List Char) : Option (List Char × List Char) :=
  match cs with
  | '.' :: r => digitRun 10 r
  | _ => none

/-- Whether `n · 10 ^ e` lies too far from zero for a double. -/
def exceedsDouble (n : Nat) (e : Int) : Bool :=
  let limit := Nat.pow 2 1024 - Nat.pow 2 970
  let digits : Int := (Nat.toDigits 10 n).length
  if n = 0 then false
  else if 400 < digits + e then true
  else if digits + e < 300 then false
  else if 0 ≤ e then decide (limit ≤ n * Nat.pow 10 e.toNat)
  else decide (limit * Nat.pow 10 (-e).toNat ≤ n)

/-- What follows a float that starts here. It has a fraction or an exponent or both, and is not
infinite unless it is written so. -/
def float? (cs : List Char) : Option (List Char) :=
  let (negative, unsigned) := signOf cs
  match unsigned with
  | 'i' :: 'n' :: 'f' :: r => some r
  | 'n' :: 'a' :: 'n' :: r => some r
  | _ =>
    (decimalRun unsigned).bind fun whole =>
      let finish (digits : List Char) (shift : Nat) (e : Int) (rest : List Char) :=
        (numeral? 10 digits).bind fun n =>
          if !negative && exceedsDouble n (e - shift) then none else some rest
      match exponent? whole.2, fraction? whole.2 with
      | some (e, rest), _ => finish whole.1 0 e rest
      | none, some (digits, rest) =>
        let (e, rest) := (exponent? rest).getD (0, rest)
        finish (whole.1 ++ digits) digits.length e rest
      | none, none => none

end ModelSurvey.Toml
