/-
CallData/Call/Step.lean

The operations of a call builder as data, and runs of them.

A run goes on after a step that fails, with the call that the step has left.
-/
import CallData.Call

namespace CallData.Call

open Abi

/-- An operation on a call under construction. -/
inductive Step where
  | setName (name : String)
  | add (value : Value)
  | addUInt32 (number : UInt32)
  | addUInt64 (number : UInt64)
  | addWord (number : Word)
  | addBytes (data : Bytes)
  | addText (content : String)
  | addTexts (items : List String)
  | addBlobs (items : List Bytes)
  deriving DecidableEq

namespace Step

/-- The value that a step adds. -/
def value? : Step → Option Value
  | setName _ => none
  | add value => some value
  | addUInt32 number => some (.ofUInt32 number)
  | addUInt64 number => some (.ofUInt64 number)
  | addWord number => some (.ofWord number)
  | addBytes data => some (.bytes data)
  | addText content => some (.text content)
  | addTexts items => some (.texts items)
  | addBlobs items => some (.blobs items)

/-- What a step does to a call. -/
def apply : Step → Operation CallError Call Unit
  | setName name => modify fun call => call.setName name
  | add value => Call.add value
  | addUInt32 number => Call.add (.ofUInt32 number)
  | addUInt64 number => Call.add (.ofUInt64 number)
  | addWord number => Call.add (.ofWord number)
  | addBytes data => Call.add (.bytes data)
  | addText content => Call.add (.text content)
  | addTexts items => Call.add (.texts items)
  | addBlobs items => Call.add (.blobs items)

end Step

/-- The call after a step, whether that fails or not. -/
def advance (call : Call) (step : Step) : Call := step.apply.after call

def run (call : Call) (steps : List Step) : Call := steps.foldl advance call

end CallData.Call
