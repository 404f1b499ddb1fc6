/-
CallData/Signature.lean

Function signatures: a name and the types of the parameters.

A signature is written `name(type1,type2)` with canonical type names and no blanks; its
selector is the start of the digest of that text.  Reading is more lenient: it allows blanks
around the text, the name and each type name.  The name ends at the first opening
parenthesis.
-/
import CallData.CallError
import CallData.Keccak
import CallData.Operation
import CallData.Selector

namespace CallData

open Abi

/-- A function name and the types of its parameters. -/
structure Signature where
  name : String
  types : List ParamType
  deriving DecidableEq

namespace Signature

/-! ### Building -/

/-- The function of this name that has no parameters. -/
def ofName (name : String) : Signature := ⟨name, []⟩

/-- One more parameter, of the given type. -/
def push (sig : Signature) (ty : ParamType) : Signature :=
  { sig with types := sig.types ++ [ty] }

/-- Adds a parameter of the type with the given name. -/
def addType (typeName : String) : Operation CallError Signature Unit := do
  let ty ← MonadExcept.ofExcept (ParamType.parse typeName)
  modify fun sig => sig.push ty

/-- Adds parameters of the types with the given names, up to a name that is none. -/
def addTypes : List String → Operation CallError Signature Unit
  | [] => pure ()
  | typeName :: rest => do
    addType typeName
    addTypes rest

/-! ### Writing -/

def chars (sig : Signature) : List Char :=
  sig.name.toList ++ '(' :: [','].intercalate (sig.types.map fun ty => ty.name.toList) ++ [')']

/-- The canonical text: the name, and the type names between parentheses. -/
def render (sig : Signature) : String := String.ofList sig.chars

/-- The selector under a hash function. -/
def selectorWith (hash : Hasher) (sig : Signature) : Selector :=
  Selector.ofDigest (hash (Text.utf8 sig.render))

/-- The selector under Keccak-256. -/
def selector (sig : Signature) : Selector := sig.selectorWith Keccak.hash

/-! ### Reading -/

/-- The type names of an argument list; a blank list has none. -/
def typeNames (args : List Char) : List (List Char) :=
  if Text.isBlankText args then [] else args.splitOn ','

/-- Reads a name and an argument list. -/
def ofParts (name args : List Char) : Except CallError Signature :=
  if Text.isBlankText name then .error .missingName
  else do
    let types ← (typeNames args).mapM ParamType.ofChars
    return ⟨String.ofList (Text.trim name), types⟩

/-- The characters before the first opening parenthesis, and those between it and the
closing parenthesis that ends the text. -/
def splitCall? (cs : List Char) : Option (List Char × List Char) :=
  match cs.dropWhile (· != '(') with
  | [] => none
  | _ :: rest =>
    if rest.getLast? = some ')' then some (cs.takeWhile (· != '('), rest.dropLast) else none

/-- Reads a signature. -/
def parse (text : String) : Except CallError Signature :=
  let trimmed := Text.trim text.toList
  match splitCall? trimmed with
  | none => .error (.invalidTypeName (String.ofList trimmed))
  | some (name, args) => ofParts name args

end Signature

end CallData
