/-
CallData/Command/Configure.lean

The command that shows and changes the settings.
-/
import CallData.Home
import CallData.Report

namespace CallData.Command

/-- The settings after the changes that are asked for. -/
def changed (s : Settings) (hexMark : Option Bool) (format : Option DataFormat) : Settings :=
  ⟨hexMark.getD s.hexMark, format.getD s.format⟩

def showSettings (s : Settings) : Report :=
  Report.empty
    |>.flag "hex_prefix" s.hexMark
    |>.text "output_format" s.format.name
    |>.say ("Hex prefix: " ++ Settings.boolName s.hexMark ++
        "\nOutput format: " ++ s.format.name)

/-- Says that the settings have been kept. -/
def saved : Report :=
  Report.empty |>.text "status" "saved" |>.say "Configuration saved"

/-- Says how to use the command. -/
def advice : Report :=
  Report.empty.say
    "Use --show to display config, or --set-hex-prefix/--set-output-format to modify"

/-- Changes the settings if a change is asked for, or else shows them if that is asked for. -/
def configure (home : Home) (wantsShow : Bool) (hexMark : Option Bool)
    (format : Option DataFormat) : Except Error (Home × Report) :=
  if hexMark.isSome || format.isSome then do
    let home' ← home.save (changed home.settings hexMark format)
    return (home', saved)
  else if wantsShow then .ok (home, showSettings home.settings)
  else .ok (home, advice)

end CallData.Command
