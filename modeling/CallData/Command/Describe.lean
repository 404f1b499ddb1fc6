/-
CallData/Command/Describe.lean

The commands that describe a function and its calls.

A function is given as a bare name or as a signature, and further parameter types may be
given one by one.  `describe` reports its signature and selector; `encode` reports call data,
where each parameter is a JSON document, or else is taken as a text the way it stands.
-/
import CallData.Abi.OfJson
import CallData.Call
import CallData.Command.Error
import CallData.Json.Parser
import CallData.Report
import CallData.Settings

namespace CallData.Command

open Abi

/-! ### Arguments -/

/-- The function that a text names, without the types given apart from it. -/
def namedFunction (function : String) : Except Error Signature :=
  if function.toList.contains '(' then ofCall (Signature.parse function)
  else if Text.isBlankText function.toList then .error .emptyName
  else .ok (.ofName (String.ofList (Text.trim function.toList)))

/-- The function that a text and a list of type names describe. -/
def function (name : String) (typeNames : List String) : Except Error Signature := do
  let sig ← namedFunction name
  ofCall ((Signature.addTypes typeNames).result sig)

/-- The value that a parameter text stands for. -/
def value (raw : String) : Except Error Value :=
  match Json.parse? raw with
  | some document => ofCall (Value.ofJson document)
  | none => .ok (.text raw)

/-- The call after more parameter texts. -/
def addValues (call : Call) : List String → Except Error Call
  | [] => .ok call
  | raw :: rest => do
    let v ← value raw
    let next ← ofCall ((Call.add v).result call)
    addValues next rest

/-! ### Commands -/

/-- Refuses a selector that is not the expected one. -/
def checkExpected (expected : Option Selector) (computed : Selector) : Except Error Unit :=
  match expected with
  | some sel => if sel = computed then .ok () else .error (.selectorMismatch sel computed)
  | none => .ok ()

/-- Reports the signature and the selector of a function, and that the selector is the
expected one if one is given. -/
def describe (settings : Settings) (name : String) (typeNames : List String)
    (expected : Option Selector) : Except Error Report := do
  let sig ← function name typeNames
  checkExpected expected sig.selector
  let hex := settings.hexText sig.selector.bytes
  let report := Report.empty
    |>.text "signature" sig.render
    |>.text "selector" hex
    |>.say (hex ++ "  " ++ sig.render)
  return if expected.isSome then report.flag "matches" true else report

/-- Reports the call data for a function and its parameters. -/
def encode (settings : Settings) (name : String) (typeNames values : List String) :
    Except Error Report := do
  let sig ← function name typeNames
  let call ← addValues (.ofSignature sig) values
  let data ← ofCall call.encode
  let shown ← ofCall call.signature
  return Report.empty
    |>.text "signature" shown.render
    |>.text "selector" (settings.hexText (data.take 4))
    |>.text "data" (settings.hexText data)
    |>.count "length" (UInt64.ofNat data.length)
    |>.say (settings.dataText data)

end CallData.Command
