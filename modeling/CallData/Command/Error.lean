/-
CallData/Command/Error.lean

Why a command fails, and how each cause is worded.
-/
import CallData.CallError
import CallData.Selector

namespace CallData.Command

/-- Why a command fails. -/
inductive Error where
  | emptyName
  | selectorMismatch (expected computed : Selector)
  | call (cause : CallError)
  /-- The settings file cannot be written, for the reason the system gives. -/
  | storage (reason : String)
  deriving DecidableEq

def Error.message : Error → String
  | emptyName => "Invalid input: Function name is empty"
  | selectorMismatch expected computed =>
    "Invalid input: selector mismatch: expected " ++ expected.toHex ++
      ", computed " ++ computed.toHex
  | call cause => "SDK error: " ++ cause.message
  | storage reason => "IO error: " ++ reason

/-- A failure to describe or encode a call, as a failure of a command. -/
def ofCall : Except CallError α → Except Error α
  | .ok a => .ok a
  | .error cause => .error (.call cause)

end CallData.Command
