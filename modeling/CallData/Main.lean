/-
CallData/Main.lean

The program on the command line: reads the settings file, runs, and writes the outcome.

The settings are in `.hedron/config.toml` under the home directory.  Where that file cannot
be written, the run ends as one whose directory cannot be used.
-/
import CallData.Program

namespace CallData

/-- The directory of the settings file. -/
def settingsDirectory : IO String := do
  let home := (← IO.getEnv "HOME").getD ""
  return home ++ "/.hedron"

/-- The content of a file, if it can be read. -/
def readFile? (path : String) : IO (Option Bytes) := do
  try
    let content ← IO.FS.readBinFile path
    return some content.data.toList
  catch _ => return none

/-- Writes a file and makes its directory if need be; tells whether that went well. -/
def writeFile (directory path : String) (content : Bytes) : IO Bool := do
  try
    IO.FS.createDirAll directory
    IO.FS.writeBinFile path ⟨content.toArray⟩
    return true
  catch _ => return false

/-- Writes the outcome and gives the exit code. -/
def finish (outcome : Outcome) : IO UInt32 := do
  IO.print outcome.out
  IO.eprint outcome.err
  return outcome.exit

end CallData

open CallData in
/-- Runs the program with the given arguments. -/
def main (args : List String) : IO UInt32 := do
  let directory ← settingsDirectory
  let path := directory ++ "/config.toml"
  let home := Home.usable (← readFile? path)
  let (home', outcome) := Program.run home args
  match home'.file? with
  | some content =>
    if home' = home then finish outcome
    else if ← writeFile directory path content then finish outcome
    else finish (Program.run .occupied args).2
  | none => finish outcome
