/-
CallData/Toml/Number.lean

Numbers, dates and times of TOML 1.0.

Only their form and their range are checked: an integer fits 64 bits with its sign, a number
with a fraction or an exponent is not so large that it counts as infinite, and a date is one
of the calendar.  Each reader gives what follows.
-/
import CallData.Text.Digits

namespace CallData.Toml

-- powers of numbers are those of the core library
attribute [local instance (high)] instPowNat

/-! ### Digits with underscores -/

/-- The digits of a run in which an underscore may stand between two of them.  `wanted` says
that a digit has to come next; `isDigit` says which characters are digits. -/
def run? (isDigit : Char → Bool) : (wanted : Bool) → List Char → Option (List Char × List Char)
  | wanted, c :: rest =>
    if isDigit c then (run? isDigit false rest).map fun (ds, r) => (c :: ds, r)
    else if wanted then none
    else if c = '_' then run? isDigit true rest
    else some ([], c :: rest)
  | wanted, [] => if wanted then none else some ([], [])

/-- A sign, if one stands here: whether it is a minus, and what follows it. -/
def sign : List Char → Bool × List Char
  | '+' :: rest => (false, rest)
  | '-' :: rest => (true, rest)
  | cs => (false, cs)

/-- The digits of a decimal number before its point.  A zero stands only by itself. -/
def wholeDigits? : List Char → Option (List Char × List Char)
  | '0' :: rest => some (['0'], rest)
  | cs => run? Char.isDigit true cs

/-! ### Integers -/

/-- The number that digits of any base up to sixteen spell. -/
def valueOf (base : Nat) (ds : List Char) : Nat :=
  ds.foldl (fun n c => base * n + (Text.hexValue? c).getD 0) 0

/-- The rest of an integer in a base other than ten, after its mark. -/
def marked? (base : Nat) (isDigit : Char → Bool) (cs : List Char) : Option (List Char) := do
  let (ds, rest) ← run? isDigit true cs
  if valueOf base ds < 2 ^ (63 : Nat) then some rest else none

def integer? : List Char → Option (List Char)
  | '0' :: 'x' :: rest => marked? 16 (fun c => (Text.hexValue? c).isSome) rest
  | '0' :: 'o' :: rest => marked? 8 (fun c => '0' ≤ c && c ≤ '7') rest
  | '0' :: 'b' :: rest => marked? 2 (fun c => c == '0' || c == '1') rest
  | cs => do
    let (negative, cs) := sign cs
    let (ds, rest) ← wholeDigits? cs
    let n := valueOf 10 ds
    if n < 2 ^ (63 : Nat) || (negative && n == 2 ^ (63 : Nat)) then some rest else none

/-! ### Numbers with a fraction or an exponent -/

/-- The least number that is as near to the power 2^1024 as to the greatest finite number of
64-bit binary floating point, and hence counts as infinite. -/
def infinityBound : Nat := (2 ^ (54 : Nat) - 1) * 2 ^ (970 : Nat)

/-- The number `m * 10 ^ e` counts as infinite.  Its decimal size decides all but the close
cases, so that no power of ten gets out of hand. -/
def overflows (m : Nat) (e : Int) : Bool :=
  let decimals : Int := (Nat.toDigits 10 m).length + e
  if m = 0 || decimals < 309 then false
  else if 309 < decimals then true
  else infinityBound * 10 ^ (-e).toNat ≤ m * 10 ^ e.toNat

/-- The digits after a point. -/
def fractionDigits? : List Char → Option (List Char × List Char)
  | '.' :: rest => run? Char.isDigit true rest
  | _ => none

/-- The exponent after an `e`. -/
def exponentAfterMark? (cs : List Char) : Option (Int × List Char) := do
  let (negative, cs) := sign cs
  let (ds, rest) ← run? Char.isDigit true cs
  let n : Int := valueOf 10 ds
  return (if negative then -n else n, rest)

def exponent? : List Char → Option (Int × List Char)
  | 'e' :: rest => exponentAfterMark? rest
  | 'E' :: rest => exponentAfterMark? rest
  | _ => none

/-- A number with a fraction, an exponent, or both. -/
def decimal? (cs : List Char) : Option (List Char) := do
  let (negative, cs) := sign cs
  let (whole, afterWhole) ← wholeDigits? cs
  let (fraction, afterFraction) ←
    match afterWhole with
    | '.' :: _ => fractionDigits? afterWhole
    | _ => some ([], afterWhole)
  let (exponent, rest) ←
    match afterFraction with
    | 'e' :: _ => exponent? afterFraction
    | 'E' :: _ => exponent? afterFraction
    | _ => if fraction.isEmpty then none else some (0, afterFraction)
  if !negative && overflows (valueOf 10 (whole ++ fraction)) (exponent - fraction.length) then none
  else some rest

/-- The names of infinity and of the number that is none. -/
def special? (cs : List Char) : Option (List Char) :=
  match (sign cs).2 with
  | 'i' :: 'n' :: 'f' :: rest => some rest
  | 'n' :: 'a' :: 'n' :: rest => some rest
  | _ => none

/-! ### Dates and times -/

/-- The number that exactly two digits spell. -/
def two? : List Char → Option (Nat × List Char)
  | a :: b :: rest =>
    if a.isDigit && b.isDigit then some (valueOf 10 [a, b], rest) else none
  | _ => none

/-- A number of two digits up to a bound. -/
def twoUpTo? (bound : Nat) (cs : List Char) : Option (Nat × List Char) := do
  let (n, rest) ← two? cs
  if n ≤ bound then some (n, rest) else none

/-- What follows a character, if it stands here. -/
def after? (c : Char) : List Char → Option (List Char)
  | d :: rest => if d = c then some rest else none
  | [] => none

/-- The year has a 29th of February. -/
def isLeapYear (year : Nat) : Bool := year % 4 == 0 && (year % 100 != 0 || year % 400 == 0)

/-- The number of days in a month. -/
def daysIn (year month : Nat) : Nat :=
  if month = 2 then (if isLeapYear year then 29 else 28)
  else if month = 4 ∨ month = 6 ∨ month = 9 ∨ month = 11 then 30
  else 31

/-- A date of the calendar. -/
def date? (cs : List Char) : Option (List Char) := do
  let (century, cs) ← two? cs
  let (yearOfCentury, cs) ← two? cs
  let cs ← after? '-' cs
  let (month, cs) ← twoUpTo? 12 cs
  let cs ← after? '-' cs
  let (day, cs) ← two? cs
  if 1 ≤ month ∧ 1 ≤ day ∧ day ≤ daysIn (100 * century + yearOfCentury) month then some cs
  else none

/-- A time of day.  A minute may have a leap second, and a second any fraction. -/
def time? (cs : List Char) : Option (List Char) := do
  let (_, cs) ← twoUpTo? 23 cs
  let cs ← after? ':' cs
  let (_, cs) ← twoUpTo? 59 cs
  let cs ← after? ':' cs
  let (_, cs) ← twoUpTo? 60 cs
  match cs with
  | '.' :: rest => (Text.Digits.read? rest).map fun (_, r) => r
  | _ => some cs

/-- The distance from universal time after its sign. -/
def offsetAfterSign? (cs : List Char) : Option (List Char) := do
  let (_, cs) ← twoUpTo? 23 cs
  let cs ← after? ':' cs
  let (_, cs) ← twoUpTo? 59 cs
  return cs

/-- A time of day and, if it is given, its distance from universal time. -/
def timeWithOffset? (cs : List Char) : Option (List Char) := do
  let rest ← time? cs
  match rest with
  | 'Z' :: rest' => some rest'
  | 'z' :: rest' => some rest'
  | '+' :: rest' => offsetAfterSign? rest'
  | '-' :: rest' => offsetAfterSign? rest'
  | _ => some rest

/-- A date and a time with or without offset, a date alone, or a time alone.  What stands
after a date and is no time does not belong to it. -/
def moment? (cs : List Char) : Option (List Char) :=
  match date? cs with
  | none => time? cs
  | some rest =>
    let tail? :=
      match rest with
      | 'T' :: rest' => timeWithOffset? rest'
      | 't' :: rest' => timeWithOffset? rest'
      | ' ' :: rest' => timeWithOffset? rest'
      | _ => none
    some (tail?.getD rest)

end CallData.Toml
