/-
CallData/Abi/ParamType.lean

The types that a parameter of a contract function may have, and their names.

Every type has one canonical name, the one written into signatures; `uint` is a second
spelling of `uint256` that is only read.
-/
import CallData.Text.Blank
import CallData.Word

namespace CallData.Abi

/-! ### Widths of integers -/

/-- The width of an unsigned integer parameter. -/
inductive Width where
  | w32
  | w64
  | w256
  deriving DecidableEq, Repr

namespace Width

-- powers of numbers are those of the core library
attribute [local instance (high)] instPowNat

def bits : Width → Nat
  | w32 => 32
  | w64 => 64
  | w256 => 256

def byteCount (w : Width) : Nat := w.bits / 8

/-- The number can be written in this many bits. -/
def fits (w : Width) (x : Word) : Bool := x.toNat < 2 ^ w.bits

end Width

/-! ### Parameter types -/

/-- The element type of an array parameter. -/
inductive Element where
  | bytes
  | string
  deriving DecidableEq, Repr

/-- The type of a parameter. -/
inductive ParamType where
  | uint (width : Width)
  | bytes
  | string
  | array (element : Element)
  deriving DecidableEq, Repr

namespace ParamType

/-- The value takes up as much room as it needs, behind an offset word. -/
def isDynamic : ParamType → Bool
  | uint _ => false
  | bytes => true
  | string => true
  | array _ => true

/-- The canonical name, as it stands in a signature. -/
def name : ParamType → String
  | uint .w32 => "uint32"
  | uint .w64 => "uint64"
  | uint .w256 => "uint256"
  | bytes => "bytes"
  | string => "string"
  | array .bytes => "bytes[]"
  | array .string => "string[]"

def ofName? (text : String) : Option ParamType :=
  match text with
  | "uint32" => some (uint .w32)
  | "uint64" => some (uint .w64)
  | "uint256" => some (uint .w256)
  | "uint" => some (uint .w256)
  | "bytes" => some bytes
  | "string" => some string
  | "bytes[]" => some (array .bytes)
  | "string[]" => some (array .string)
  | _ => none

@[simp] theorem ofName?_name (ty : ParamType) : ofName? ty.name = some ty := by
  rcases ty with (_ | _ | _) | _ | _ | (_ | _) <;> rfl

end ParamType

end CallData.Abi
