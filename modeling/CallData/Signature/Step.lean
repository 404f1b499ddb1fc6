/-
CallData/Signature/Step.lean

The operations of a signature builder as data.
-/
import CallData.Signature

namespace CallData.Signature

open Abi

/-- An operation on a signature under construction. -/
inductive Step where
  | addType (typeName : String)
  | push (type : ParamType)
  deriving DecidableEq

/-- What a step does to a signature. -/
def Step.apply : Step → Operation CallError Signature Unit
  | addType typeName => Signature.addType typeName
  | push type => modify fun sig => sig.push type

end CallData.Signature
