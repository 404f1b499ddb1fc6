/-
CallData/CommandLine/Switch.lean

The switches of the command line: which there are, how they are spelled, what values they
take, and which commands know them.
-/
import CallData.Selector
import CallData.Settings

namespace CallData.CommandLine

/-! ### Switches -/

/-- A switch, which is an argument with a name. -/
inductive Switch where
  | json
  | logLevel
  | type
  | param
  | expect
  | showSettings
  | setHexMark
  | setFormat
  | help
  | version
  deriving DecidableEq, Repr

namespace Switch

/-- The long spelling, without the dashes. -/
def longName : Switch → String
  | json => "json"
  | logLevel => "log-level"
  | type => "type"
  | param => "param"
  | expect => "expect"
  | showSettings => "show"
  | setHexMark => "set-hex-prefix"
  | setFormat => "set-output-format"
  | help => "help"
  | version => "version"

/-- The short spelling, if there is one, without the dash. -/
def letter? : Switch → Option Char
  | type => some 't'
  | param => some 'p'
  | help => some 'h'
  | version => some 'V'
  | _ => none

/-- What stands for the value in messages; a switch without it takes no value. -/
def placeholder? : Switch → Option String
  | logLevel => some "LOG_LEVEL"
  | type => some "TYPES"
  | param => some "PARAMS"
  | expect => some "EXPECT"
  | setHexMark => some "SET_HEX_PREFIX"
  | setFormat => some "SET_OUTPUT_FORMAT"
  | json => none
  | showSettings => none
  | help => none
  | version => none

def takesValue (s : Switch) : Bool := s.placeholder?.isSome

/-- The argument after the switch is its value even if it looks like a switch. -/
def takesAnything (s : Switch) : Bool := s == param

/-- The switch may be given more than once. -/
def repeats (s : Switch) : Bool := s == type || s == param

/-- The switch as it stands in messages. -/
def display (s : Switch) : String :=
  match s.placeholder? with
  | some placeholder => "--" ++ s.longName ++ " <" ++ placeholder ++ ">"
  | none => "--" ++ s.longName

end Switch

/-! ### Commands -/

/-- A command by its name. -/
inductive Verb where
  | selector
  | encode
  | config
  deriving DecidableEq, Repr

namespace Verb

def ofName? (text : String) : Option Verb :=
  match text with
  | "selector" => some selector
  | "encode" => some encode
  | "config" => some config
  | _ => none

/-- The command needs an argument without a switch, the function. -/
def takesFunction : Verb → Bool
  | selector => true
  | encode => true
  | config => false

/-- The switches that only this command knows. -/
def ownSwitches : Verb → List Switch
  | selector => [.type, .expect]
  | encode => [.type, .param]
  | config => [.showSettings, .setHexMark, .setFormat]

end Verb

/-- The switches that stand before the command as well as after it. -/
def commonSwitches : List Switch := [.json, .logLevel, .help]

/-- The switches that are known after a command, or before it. -/
def switches (verb : Option Verb) : List Switch :=
  match verb with
  | some v => v.ownSwitches ++ commonSwitches
  | none => .version :: commonSwitches

/-! ### Values -/

/-- A switch with the value that has been read for it. -/
inductive Given where
  | json
  | logLevel (level : String)
  | type (name : String)
  | param (raw : String)
  | expect (selector : Selector)
  | showSettings
  | setHexMark (mark : Bool)
  | setFormat (format : DataFormat)
  deriving DecidableEq

def Given.switch : Given → Switch
  | json => .json
  | logLevel _ => .logLevel
  | type _ => .type
  | param _ => .param
  | expect _ => .expect
  | showSettings => .showSettings
  | setHexMark _ => .setHexMark
  | setFormat _ => .setFormat

end CallData.CommandLine
