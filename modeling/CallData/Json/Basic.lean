/-
CallData/Json/Basic.lean

JSON values.

A number keeps the digits it is written with, so that no size or precision is lost; only the
spelling of its exponent is settled, to a lower-case `e` and a sign.  An object keeps its
members in written order, repeated keys included.
-/
import CallData.Text.Digits

namespace CallData

namespace Json

/-- A number as it is written. -/
structure Number where
  negative : Bool
  whole : Text.Digits
  fraction : Option Text.Digits
  /-- The exponent: whether it has a minus sign, and its digits. -/
  exponent : Option (Bool × Text.Digits)
  deriving DecidableEq

namespace Number

def chars (n : Number) : List Char :=
  (if n.negative then ['-'] else []) ++ n.whole.chars ++
    (match n.fraction with
      | some ds => '.' :: ds.chars
      | none => []) ++
    (match n.exponent with
      | some (minus, ds) => 'e' :: (if minus then '-' else '+') :: ds.chars
      | none => [])

def text (n : Number) : String := String.ofList n.chars

/-- The number spelled by digits alone, if there is no sign, fraction or exponent. -/
def natural? (n : Number) : Option Nat :=
  match n.negative, n.fraction, n.exponent with
  | false, none, none => some n.whole.toNat
  | _, _, _ => none

/-- A natural number, written without leading zeros. -/
def ofNat (n : Nat) : Number := ⟨false, .ofNat n, none, none⟩

end Number

end Json

/-- A JSON value. -/
inductive Json where
  | null
  | bool (value : Bool)
  | number (value : Json.Number)
  | string (content : String)
  | array (items : List Json)
  | object (members : List (String × Json))

end CallData
