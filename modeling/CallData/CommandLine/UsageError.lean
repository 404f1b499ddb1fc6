/-
CallData/CommandLine/UsageError.lean

Why the arguments of the program are refused, and the line that says so.

Arguments are quoted without the control sequences they may hold.
-/
import CallData.CommandLine.Switch
import CallData.Text.Terminal

namespace CallData.CommandLine

/-- Why the arguments are refused. -/
inductive UsageError where
  | noArguments
  | missingCommand
  | unknownCommand (name : String)
  | missingFunction
  | unexpected (argument : String)
  | repeated (switch : Switch)
  /-- The value of the switch is not given, or is empty where it has to be one of a few. -/
  | missingValue (switch : Switch)
  /-- The switch takes no value, and one is given. -/
  | surplusValue (switch : Switch) (value : String)
  | invalidChoice (switch : Switch) (value : String)
  | invalidSelector (value : String) (reason : Selector.Error)
  deriving DecidableEq

def UsageError.message : UsageError → String
  | noArguments => "Hedron CLI"
  | missingCommand => "error: 'hedron' requires a subcommand but one was not provided"
  | unknownCommand name => "error: unrecognized subcommand '" ++ Text.plain name ++ "'"
  | missingFunction => "error: the following required arguments were not provided:"
  | unexpected argument => "error: unexpected argument '" ++ Text.plain argument ++ "' found"
  | repeated switch =>
    "error: the argument '" ++ switch.display ++ "' cannot be used multiple times"
  | missingValue switch =>
    "error: a value is required for '" ++ switch.display ++ "' but none was supplied"
  | surplusValue switch value =>
    "error: unexpected value '" ++ Text.plain value ++ "' for '" ++ switch.display ++
      "' found; no more were expected"
  | invalidChoice switch value =>
    "error: invalid value '" ++ Text.plain value ++ "' for '" ++ switch.display ++ "'"
  | invalidSelector value reason =>
    "error: invalid value '" ++ Text.plain value ++ "' for '" ++ Switch.display .expect ++
      "': " ++ reason.message

end CallData.CommandLine
