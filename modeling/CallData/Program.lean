/-
CallData/Program.lean

A run of the program: from its arguments and the settings file to its output, its exit code
and the settings file that it leaves.

Arguments are read before anything else happens.  A run whose arguments are refused exits
with 2, one whose command fails with 1.  The output ends with one line end.
-/
import CallData.Command.Configure
import CallData.Command.Describe
import CallData.CommandLine.Request

namespace CallData

open CommandLine (Command Halt Notice Request)

/-! ### Outcomes -/

/-- What a run leaves behind beside the settings file. -/
structure Outcome where
  exit : UInt32
  /-- What is written to standard output. -/
  out : String
  /-- What is written to standard error. -/
  err : String
  deriving DecidableEq

namespace Outcome

/-- A text and a line end. -/
def line (text : String) : String := text ++ "\n"

/-- The command has been carried out. -/
def success (json : Bool) (report : Report) : Outcome :=
  ⟨0, (report.render json).elim "" line, ""⟩

/-- A failure as a document for programs. -/
def failureDocument (error : Command.Error) : String :=
  String.ofList (Json.compactObject [("error", .text error.message), ("success", .flag false)])

/-- The command has failed. -/
def failure (json : Bool) (error : Command.Error) : Outcome :=
  if json then ⟨1, line (failureDocument error), ""⟩
  else ⟨1, "", line ("Error: " ++ error.message)⟩

/-- A short guide to the program. -/
def guide : String :=
  "Usage: hedron [--json] [--log-level <LOG_LEVEL>] <selector|encode|config> [ARGUMENTS]"

def version : String := "hedron 0.1.0"

/-- The reading of the arguments has ended early. -/
def halted : Halt → Outcome
  | .refused error => ⟨2, "", line error.message⟩
  | .notice .help => ⟨0, line guide, ""⟩
  | .notice .version => ⟨0, line version, ""⟩

end Outcome

/-! ### Runs -/

namespace Program

/-- Carries out a command. -/
def execute (home : Home) : Command → Except Command.Error (Home × Report)
  | .selector function types expected => do
    let report ← Command.describe home.settings function types expected
    return (home, report)
  | .encode function types params => do
    let report ← Command.encode home.settings function types params
    return (home, report)
  | .config wantsShow hexMark format => Command.configure home wantsShow hexMark format

/-- Carries out a request. -/
def serve (home : Home) (request : Request) : Home × Outcome :=
  match execute home request.command with
  | .ok (home', report) => (home', .success request.json report)
  | .error error => (home, .failure request.json error)

/-- A run with the given arguments. -/
def run (home : Home) (args : List String) : Home × Outcome :=
  match CommandLine.parse args with
  | .ok request => serve home request
  | .error halt => (home, .halted halt)

/-- Runs one after the other, each with its own arguments. -/
def runAll (home : Home) : List (List String) → Home × List Outcome
  | [] => (home, [])
  | args :: rest =>
    let (home', outcome) := run home args
    let (home'', outcomes) := runAll home' rest
    (home'', outcome :: outcomes)

end Program

end CallData
