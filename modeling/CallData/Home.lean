/-
CallData/Home.lean

The place where the settings file lives, from one run of the program to the next.
-/
import CallData.Command.Error
import CallData.Settings

namespace CallData

/-- The state of the place where the settings file lives. -/
inductive Home where
  /-- The directory can be used; the content of the file, if there is one. -/
  | usable (file : Option Bytes)
  /-- Something that is no directory has taken its place, so no file can be there. -/
  | occupied
  deriving DecidableEq

namespace Home

/-- The content of the settings file, if there is one. -/
def file? : Home → Option Bytes
  | usable file => file
  | occupied => none

/-- The settings in force. -/
def settings (home : Home) : Settings := Settings.load home.file?

/-- Keeps these settings in the file. -/
def save (s : Settings) : Home → Except Command.Error Home
  | usable _ => .ok (usable (some s.file))
  | occupied => .error (.storage "File exists (os error 17)")

end Home

end CallData
