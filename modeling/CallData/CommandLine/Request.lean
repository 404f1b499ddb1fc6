/-
CallData/CommandLine/Request.lean

What the arguments of a run ask for.
-/
import CallData.CommandLine.Scan

namespace CallData.CommandLine

/-- A command with its arguments. -/
inductive Command where
  | selector (function : String) (types : List String) (expected : Option Selector)
  | encode (function : String) (types params : List String)
  | config (wantsShow : Bool) (hexMark : Option Bool) (format : Option DataFormat)
  deriving DecidableEq

/-- What a run is asked for. -/
structure Request where
  /-- The output is for programs. -/
  json : Bool
  command : Command
  deriving DecidableEq

/-! ### Values of switches -/

namespace Given

def type? : Given → Option String
  | type name => some name
  | _ => none

def param? : Given → Option String
  | param raw => some raw
  | _ => none

def expect? : Given → Option Selector
  | expect sel => some sel
  | _ => none

def hexMark? : Given → Option Bool
  | setHexMark mark => some mark
  | _ => none

def format? : Given → Option DataFormat
  | setFormat format => some format
  | _ => none

end Given

/-! ### Requests -/

namespace Found

def types (found : Found) : List String := found.given.filterMap Given.type?

def params (found : Found) : List String := found.given.filterMap Given.param?

end Found

def Scanned.command (s : Scanned) : Command :=
  let function := s.after.function.getD ""
  match s.verb with
  | .selector => .selector function s.after.types (s.after.given.findSome? Given.expect?)
  | .encode => .encode function s.after.types s.after.params
  | .config =>
    .config (s.after.has .showSettings) (s.after.given.findSome? Given.hexMark?)
      (s.after.given.findSome? Given.format?)

def Scanned.request (s : Scanned) : Request :=
  ⟨s.before.has .json || s.after.has .json, s.command⟩

/-- What the arguments of a run ask for. -/
def parse (args : List String) : Except Halt Request :=
  (scan .nothing args).map Scanned.request

end CallData.CommandLine
