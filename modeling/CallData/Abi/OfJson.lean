/-
CallData/Abi/OfJson.lean

The values that JSON documents stand for.

A string is a text, and a number written by digits alone a 256-bit integer.  An array of
strings is a list of texts, an array of bytes a byte string; the empty array counts as a list
of texts.  Nothing else stands for a value.
-/
import CallData.CallError
import CallData.Json.Basic

namespace CallData.Abi.Value

-- powers of numbers are those of the core library
attribute [local instance (high)] instPowNat

/-- Why a number is not a 256-bit unsigned integer.  A minus sign is reported first. -/
def numberFault (n : Json.Number) : Unsupported :=
  if n.negative then .negative n.text
  else if n.fraction.isSome || n.exponent.isSome then .nonInteger n.text
  else .tooLarge n.text

/-- The integer that a number stands for. -/
def ofNumber (n : Json.Number) : Except CallError Value :=
  match n.natural? with
  | some x =>
    if x < 2 ^ (256 : Nat) then .ok (.ofWord (BitVec.ofNat 256 x))
    else .error (.unsupported (numberFault n))
  | none => .error (.unsupported (numberFault n))

def textOf? : Json → Option String
  | .string content => some content
  | _ => none

/-- The byte that a number written by digits alone stands for. -/
def byteOf? : Json → Option UInt8
  | .number n =>
    match n.natural? with
    | some x => if x < 256 then some (UInt8.ofNat x) else none
    | none => none
  | _ => none

def ofArray (items : List Json) : Except CallError Value :=
  -- an empty array counts as a list of texts
  match items.mapM textOf? with
  | some contents => .ok (.texts contents)
  | none =>
    match items.mapM byteOf? with
    | some data => .ok (.bytes data)
    | none => .error (.unsupported .mixedArray)

/-- The value that a JSON document stands for. -/
def ofJson : Json → Except CallError Value
  | .null => .error (.unsupported .null)
  | .bool _ => .error (.unsupported .boolean)
  | .number n => ofNumber n
  | .string content => .ok (.text content)
  | .array items => ofArray items
  | .object _ => .error (.unsupported .object)

end CallData.Abi.Value
