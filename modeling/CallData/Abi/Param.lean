/-
CallData/Abi/Param.lean

Parameters: values bound to a type.

A value is bound in one of two ways.  `Param.infer` takes the type from the value.
`Param.resolve` checks the value against a declared type; there an integer may be given by
its big-endian bytes, and an empty list, which says nothing about its elements, may stand
for empty `bytes` or an empty `bytes[]`.  Either way an integer is stored at the width of
its type (`Param.WellTyped`), so the encoder never asks how a value was supplied.
-/
import CallData.CallError

namespace CallData.Abi

-- powers of numbers are those of the core library
attribute [local instance (high)] instPowNat

/-- The value belongs to the type, and an integer fits its width. -/
def ParamType.Holds : ParamType → Value → Prop
  | .uint target, .uint width x => width = target ∧ x.toNat < 2 ^ target.bits
  | .bytes, .bytes _ => True
  | .string, .text _ => True
  | .array .string, .texts _ => True
  | .array .bytes, .blobs _ => True
  | _, _ => False

/-- A value bound to a type. -/
structure Param where
  type : ParamType
  value : Value
  deriving DecidableEq

/-- The type that a value has by itself. -/
def Value.inferType : Value → Except CallError ParamType
  | .uint width x =>
    if width.fits x then .ok (.uint width)
    else .error (.unsupported (.tooWide x (.uint width)))
  | .bytes _ => .ok .bytes
  | .text _ => .ok .string
  | .texts _ => .ok (.array .string)
  | .blobs _ => .ok (.array .bytes)

/-- The form that a value takes under a declared type. -/
def ParamType.accept : ParamType → Value → Except CallError Value
  -- a number has to fit the width that it claims as well as the declared one
  | .uint target, .uint width x =>
    if width.fits x && target.fits x then .ok (.uint target x)
    else .error (.unsupported (.tooWide x (.uint target)))
  | .uint target, .bytes raw =>
    if raw.length ≤ target.byteCount then .ok (.uint target (Word.ofBytes raw))
    else .error (.unsupported (.tooLong raw.length (.uint target)))
  | .bytes, .bytes data => .ok (.bytes data)
  -- an empty list comes as a list of texts, whatever its elements were meant to be
  | .bytes, .texts [] => .ok (.bytes [])
  | .string, .text content => .ok (.text content)
  | .array .string, .texts items => .ok (.texts items)
  | .array .bytes, .blobs items => .ok (.blobs items)
  | .array .bytes, .texts [] => .ok (.blobs [])
  | ty, v => .error (.unsupported (.misfit v.shape ty))

namespace Param

def WellTyped (p : Param) : Prop := p.type.Holds p.value

/-- Binds a value to the type it has by itself. -/
def infer (v : Value) : Except CallError Param := do
  let ty ← v.inferType
  return ⟨ty, v⟩

/-- Binds a value to a declared type. -/
def resolve (ty : ParamType) (v : Value) : Except CallError Param := do
  let value ← ty.accept v
  return ⟨ty, value⟩

/-- Binds a value to the declared type, if there is one. -/
def bind (declared : Option ParamType) (v : Value) : Except CallError Param :=
  match declared with
  | some ty => resolve ty v
  | none => infer v

end Param

end CallData.Abi
