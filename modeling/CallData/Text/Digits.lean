/-
CallData/Text/Digits.lean

Runs of decimal digits, kept as they are written, and the values of hexadecimal digits.
-/
namespace CallData.Text

/-- The value of a hexadecimal digit of either case. -/
def hexValue? (c : Char) : Option Nat :=
  if '0' ≤ c ∧ c ≤ '9' then some (c.toNat - '0'.toNat)
  else if 'a' ≤ c ∧ c ≤ 'f' then some (c.toNat - 'a'.toNat + 10)
  else if 'A' ≤ c ∧ c ≤ 'F' then some (c.toNat - 'A'.toNat + 10)
  else none

/-- One or more decimal digits. -/
structure Digits where
  chars : List Char
  nonempty : chars ≠ []
  isDigit : ∀ c ∈ chars, c.isDigit = true
  deriving DecidableEq

namespace Digits

def toNat (ds : Digits) : Nat := Nat.ofDigitChars 10 ds.chars 0

/-- The digits of a number, without leading zeros. -/
def ofNat (n : Nat) : Digits where
  chars := Nat.toDigits 10 n
  nonempty := Nat.toDigits_ne_nil
  isDigit _ hc := Nat.isDigit_of_mem_toDigits (by decide) (by decide) hc

@[simp] theorem toNat_ofNat (n : Nat) : (ofNat n).toNat = n := Nat.ofDigitChars_ten_toDigits

/-- The longest run of digits that a text begins with, and what follows it. -/
def read? (cs : List Char) : Option (Digits × List Char) :=
  let run := cs.takeWhile Char.isDigit
  if h : run ≠ [] then
    some (⟨run, h, fun _ hc => List.all_eq_true.mp List.all_takeWhile _ hc⟩,
      cs.dropWhile Char.isDigit)
  else none

/-- A zero in front of other digits. -/
def hasLeadingZero (ds : Digits) : Bool :=
  match ds.chars with
  | '0' :: _ :: _ => true
  | _ => false

end Digits

end CallData.Text
