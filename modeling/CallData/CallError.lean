/-
CallData/CallError.lean

Why a function or a call cannot be described or encoded, and how each cause is worded.
-/
import CallData.Abi.Value

namespace CallData

open Abi

/-- Why a value cannot serve as a parameter. -/
inductive Unsupported where
  /-- The number needs more bits than the integer type has. -/
  | tooWide (number : Word) (type : ParamType)
  /-- The byte string is longer than the integer type. -/
  | tooLong (count : Nat) (type : ParamType)
  /-- No value of this shape belongs to the type. -/
  | misfit (shape : Shape) (type : ParamType)
  | null
  | boolean
  | negative (literal : String)
  /-- A JSON number with a fraction or an exponent. -/
  | nonInteger (literal : String)
  /-- A JSON number that needs more than 256 bits. -/
  | tooLarge (literal : String)
  | object
  /-- A JSON array whose elements are neither all strings nor all bytes. -/
  | mixedArray
  deriving DecidableEq

def Unsupported.message : Unsupported → String
  | tooWide number type => "value " ++ number.decimal ++ " does not fit in " ++ type.name
  | tooLong count type => Nat.repr count ++ " bytes do not fit in " ++ type.name
  | misfit shape type => shape.name ++ " cannot be encoded as " ++ type.name
  | null => "null"
  | boolean => "boolean"
  | negative literal => "negative number " ++ literal
  | nonInteger literal => "non-integer number " ++ literal
  | tooLarge literal => "number " ++ literal ++ " does not fit in uint256"
  | object => "object"
  | mixedArray => "array with mixed or nested elements"

/-- Why a function or a call cannot be described or encoded. -/
inductive CallError where
  /-- The text names no type, or is no signature. -/
  | invalidTypeName (text : String)
  | unsupported (reason : Unsupported)
  | countMismatch (expected got : Nat)
  | missingName
  deriving DecidableEq

def CallError.message : CallError → String
  | invalidTypeName text => "Invalid type name: " ++ text
  | unsupported reason => "Unsupported parameter type: " ++ reason.message
  | countMismatch expected got =>
    "Invalid number of parameters provided: expected " ++ Nat.repr expected ++
      ", got " ++ Nat.repr got
  | missingName => "Missing function name"

namespace Abi.ParamType

/-- Reads a type name that may have blanks around it. -/
def ofChars (cs : List Char) : Except CallError ParamType :=
  let text := String.ofList (Text.trim cs)
  match ofName? text with
  | some ty => .ok ty
  | none => .error (.invalidTypeName text)

def parse (text : String) : Except CallError ParamType := ofChars text.toList

end Abi.ParamType

end CallData
