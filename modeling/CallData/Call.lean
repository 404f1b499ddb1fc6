/-
CallData/Call.lean

Calls: a function name, the types it declares, and the parameters given so far.

A call made from a signature checks each value against the declared type at its position and
is complete when every type has a value.  A call made without one takes the type of each
parameter from the value itself.  Values past the declared types are bound like that too; the
call then never becomes complete.
-/
import CallData.Abi.Layout
import CallData.Signature

namespace CallData

open Abi

/-- A call under construction. -/
structure Call where
  name : Option String
  /-- The declared types; none are declared for a call made without a signature. -/
  declared : List ParamType
  params : List Param
  deriving DecidableEq

namespace Call

/-! ### Building -/

/-- A call of no named function, without declared types. -/
def empty : Call := ⟨none, [], []⟩

/-- A call of the function with this signature, with no parameters yet. -/
def ofSignature (sig : Signature) : Call := ⟨some sig.name, sig.types, []⟩

def setName (call : Call) (name : String) : Call := { call with name := some name }

def push (call : Call) (p : Param) : Call := { call with params := call.params ++ [p] }

/-- Adds a parameter, bound to the declared type at its position if there is one. -/
def add (v : Value) : Operation CallError Call Unit := do
  let call ← get
  let p ← MonadExcept.ofExcept (Param.bind call.declared[call.params.length]? v)
  modify fun call => call.push p

/-! ### Encoding -/

/-- The types that the signature of the call shows: the declared ones, or else those of the
parameters. -/
def types (call : Call) : List ParamType :=
  if call.declared.isEmpty then call.params.map (·.type) else call.declared

/-- The signature of the function that is called. -/
def signature (call : Call) : Except CallError Signature :=
  match call.name with
  | some name => .ok ⟨name, call.types⟩
  | none => .error .missingName

/-- Either no types are declared, or each one has a parameter and no parameter is left. -/
def isComplete (call : Call) : Bool :=
  call.declared.isEmpty || call.declared.length == call.params.length

/-- Call data: the selector, then the encoded parameters. -/
def dataOf (selector : Selector) (params : List Param) : Bytes :=
  selector.bytes ++ Abi.encode params

/-- The call data, with the selector taken under a hash function. -/
def encodeWith (hash : Hasher) (call : Call) : Except CallError Bytes :=
  if call.isComplete then do
    let sig ← call.signature
    return dataOf (sig.selectorWith hash) call.params
  else .error (.countMismatch call.declared.length call.params.length)

/-- The call data, with the selector taken under Keccak-256. -/
def encode (call : Call) : Except CallError Bytes := call.encodeWith Keccak.hash

end Call

end CallData
