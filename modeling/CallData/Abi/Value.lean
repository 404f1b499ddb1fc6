/-
CallData/Abi/Value.lean

Values for the parameters of a call, before they are bound to a type.

Nothing relates the number of an integer value to its width here: a value may be too wide
for the width it claims, and is refused when it is bound.
-/
import CallData.Abi.ParamType

namespace CallData.Abi

/-- A value that a caller supplies. -/
inductive Value where
  | uint (width : Width) (number : Word)
  | bytes (data : Bytes)
  | text (content : String)
  | texts (items : List String)
  | blobs (items : List Bytes)
  deriving DecidableEq

/-- What kind of thing a value is, regardless of its content. -/
inductive Shape where
  | integer
  | bytes
  | text
  | texts
  | blobs
  deriving DecidableEq, Repr

def Shape.name : Shape → String
  | integer => "integer"
  | bytes => "byte string"
  | text => "string"
  | texts => "string array"
  | blobs => "byte string array"

namespace Value

def shape : Value → Shape
  | uint _ _ => .integer
  | bytes _ => .bytes
  | text _ => .text
  | texts _ => .texts
  | blobs _ => .blobs

def ofUInt32 (n : UInt32) : Value := uint .w32 (BitVec.ofNat 256 n.toNat)

def ofUInt64 (n : UInt64) : Value := uint .w64 (BitVec.ofNat 256 n.toNat)

/-- A number of no stated width, which counts as 256 bits wide. -/
def ofWord (x : Word) : Value := uint .w256 x

end Value

end CallData.Abi
