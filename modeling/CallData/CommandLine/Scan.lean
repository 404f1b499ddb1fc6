/-
CallData/CommandLine/Scan.lean

Going through the arguments from left to right.

A switch that takes a value may have it attached, or else takes the next argument.  In the
second case the value is only read when the next switch or function comes, or at the end, so
that an argument which has no place at all is reported first.  The arguments before the
command and those after it are gone through one after the other, each part with the
switches it knows.
-/
import CallData.CommandLine.Argument
import CallData.CommandLine.UsageError

namespace CallData.CommandLine

/-! ### What has been found -/

/-- What has been found so far on one side of the command. -/
structure Found where
  given : List Given
  function : Option String
  /-- A switch whose value is still to be read, and the value if it has been passed. -/
  pending : Option (Switch × Option String)
  deriving DecidableEq

namespace Found

def nothing : Found := ⟨[], none, none⟩

def has (found : Found) (switch : Switch) : Bool := found.given.any (·.switch == switch)

/-- Reads one of a few values. -/
def readChoice (switch : Switch) (text : String) (read? : String → Option α) :
    Except UsageError α :=
  if text.isEmpty then .error (.missingValue switch)
  else
    match read? text with
    | some a => .ok a
    | none => .error (.invalidChoice switch text)

/-- The truth value of this name. -/
def boolOfName? (text : String) : Option Bool :=
  match text with
  | "true" => some true
  | "false" => some false
  | _ => none

/-- Reads the value of a switch. -/
def read (switch : Switch) (text : String) : Except UsageError Given :=
  match switch with
  | .json => .error (.surplusValue switch text)
  | .showSettings => .error (.surplusValue switch text)
  | .help => .error (.surplusValue switch text)
  | .version => .error (.surplusValue switch text)
  | .logLevel => .ok (.logLevel text)
  | .type => .ok (.type text)
  | .param => .ok (.param text)
  | .expect =>
    match Selector.ofHex text with
    | .ok sel => .ok (.expect sel)
    | .error reason => .error (.invalidSelector text reason)
  | .setHexMark => (readChoice switch text boolOfName?).map .setHexMark
  | .setFormat => (readChoice switch text DataFormat.ofName?).map .setFormat

/-- Refuses a switch that has been found before, unless it may be repeated. -/
def checkFirst (found : Found) (switch : Switch) : Except UsageError Unit :=
  if !switch.repeats && found.has switch then .error (.repeated switch) else .ok ()

/-- Adds a switch with its value. -/
def accept (found : Found) (switch : Switch) (text : String) : Except UsageError Found := do
  found.checkFirst switch
  let g ← read switch text
  return { found with given := found.given ++ [g] }

/-- Reads the value that is still to be read. -/
def settle (found : Found) : Except UsageError Found :=
  match found.pending with
  | none => .ok found
  | some (switch, none) => .error (.missingValue switch)
  | some (switch, some text) => accept { found with pending := none } switch text

/-- Adds a switch that takes a value, attached or to come. -/
def addValued (found : Found) (switch : Switch) (attached : Option String) :
    Except UsageError Found := do
  let settled ← found.settle
  match attached with
  | some text => settled.accept switch text
  | none => return { settled with pending := some (switch, none) }

/-- Adds a switch that takes no value. -/
def addFlag (found : Found) (g : Given) : Except UsageError Found := do
  let settled ← found.settle
  settled.checkFirst g.switch
  return { settled with given := settled.given ++ [g] }

def addFunction (found : Found) (text : String) : Except UsageError Found := do
  let settled ← found.settle
  return { settled with function := some text }

/-- The switch that waits for the next argument. -/
def waiting? (found : Found) : Option Switch :=
  match found.pending with
  | some (switch, none) => some switch
  | _ => none

/-- The switch that waits takes the next argument whatever it looks like. -/
def takesAnything (found : Found) : Bool :=
  match found.waiting? with
  | some switch => switch.takesAnything
  | none => false

end Found

/-! ### One argument -/

/-- Requests that end the reading of arguments at once. -/
inductive Notice where
  | help
  | version
  deriving DecidableEq, Repr

/-- Why going through the arguments ends early. -/
inductive Halt where
  | refused (error : UsageError)
  | notice (notice : Notice)
  deriving DecidableEq

/-- A refusal, as the end of going through the arguments. -/
def orHalt : Except UsageError α → Except Halt α
  | .ok a => .ok a
  | .error e => .error (.refused e)

/-- Takes in a switch to which nothing is attached. -/
def takeBare (found : Found) (switch : Switch) : Except Halt Found :=
  match switch with
  | .json => orHalt (found.addFlag .json)
  | .showSettings => orHalt (found.addFlag .showSettings)
  | .help => (orHalt found.settle).bind fun _ => .error (.notice .help)
  | .version => (orHalt found.settle).bind fun _ => .error (.notice .version)
  | _ => orHalt (found.addValued switch none)

/-- Takes in a switch with the value that is attached to it. -/
def takeAttached (found : Found) (switch : Switch) (value : String) : Except Halt Found :=
  if switch.takesValue then orHalt (found.addValued switch (some value))
  else .error (.refused (.surplusValue switch value))

/-- Takes in a long spelling. -/
def takeLong (verb : Option Verb) (found : Found) (name : String) (attached : Option String) :
    Except Halt Found :=
  match (switches verb).find? (·.longName == name), attached with
  | some switch, some value => takeAttached found switch value
  | some switch, none => takeBare found switch
  | none, _ => .error (.refused (.unexpected ("--" ++ name)))

/-- Takes in a short spelling.  What follows a letter that takes no value does not count,
because no such letter lets the reading go on. -/
def takeShort (verb : Option Verb) (found : Found) (letter : Char) (attached : String) :
    Except Halt Found :=
  match (switches verb).find? (·.letter? == some letter) with
  | some switch =>
    match attachedToLetter attached with
    | some value => if switch.takesValue then takeAttached found switch value
      else takeBare found switch
    | none => takeBare found switch
  | none => .error (.refused (.unexpected (String.ofList ['-', letter])))

/-- An argument that is neither a switch nor the value of one. -/
def takePlain (verb : Option Verb) (found : Found) (text : String) : Except Halt Found :=
  match verb with
  | none => .error (.refused (.unknownCommand text))
  | some v =>
    if v.takesFunction && found.function.isNone then orHalt (found.addFunction text)
    else .error (.refused (.unexpected text))

/-- Takes in an argument that is not the stop mark, or comes as the value of a switch. -/
def take (verb : Option Verb) (found : Found) (text : String) : Except Halt Found :=
  match found.waiting?, Argument.ofString text with
  | some switch, .plain _ => .ok { found with pending := some (switch, some text) }
  | _, .long name attached => takeLong verb found name attached
  | _, .short letter attached => takeShort verb found letter attached
  | _, _ => takePlain verb found text

/-! ### All arguments -/

/-- What remains to be done after an argument. -/
inductive Next where
  | more (found : Found)
  /-- Nothing that follows is a switch. -/
  | onlyPlain (found : Found)

/-- Takes in one argument. -/
def step (verb : Option Verb) (found : Found) (text : String) : Except Halt Next :=
  match found.waiting? with
  | some switch =>
    if switch.takesAnything then .ok (.more { found with pending := some (switch, some text) })
    else if text = "--" then .ok (.onlyPlain found)
    else (take verb found text).map .more
  | none => if text = "--" then .ok (.onlyPlain found) else (take verb found text).map .more

/-- A name that the program would know before the stop mark. -/
def isCommandName (text : String) : Bool := (Verb.ofName? text).isSome || text == "help"

/-- Takes in an argument after the stop mark.  There is no command after it. -/
def takeStopped (verb : Option Verb) (found : Found) (text : String) : Except Halt Found :=
  if verb.isNone && isCommandName text then .error (.refused (.unexpected text))
  else takePlain verb found text

/-- How a request for help on some commands ends.  No command has commands of its own. -/
def helpOn : List String → Halt
  | [] => .notice .help
  | [name] => if isCommandName name then .notice .help else .refused (.unknownCommand name)
  | name :: second :: _ => .refused (.unknownCommand (if isCommandName name then second else name))

/-- The arguments after the stop mark. -/
def scanPlain (verb : Option Verb) (found : Found) : List String → Except Halt Found
  | [] => .ok found
  | text :: rest => do
    let next ← takeStopped verb found text
    scanPlain verb next rest

/-- The arguments after a command. -/
def scanAfter (verb : Verb) (found : Found) : List String → Except Halt Found
  | [] => orHalt found.settle
  | text :: rest => do
    match ← step (some verb) found text with
    | .more next => scanAfter verb next rest
    | .onlyPlain next =>
      let last ← scanPlain (some verb) next rest
      orHalt last.settle

/-- The command that an argument names, unless the argument is the value of a switch. -/
def verbOf? (found : Found) (text : String) : Option Verb :=
  if found.waiting?.isSome then none else Verb.ofName? text

/-- What the arguments say. -/
structure Scanned where
  before : Found
  verb : Verb
  after : Found

/-- Goes through all arguments.  What stands before the command is settled last. -/
def scan (found : Found) : List String → Except Halt Scanned
  | [] => do
    let settled ← orHalt found.settle
    .error (.refused (if settled.given.isEmpty then .noArguments else .missingCommand))
  | text :: rest =>
    match verbOf? found text with
    | some verb => do
      let after ← scanAfter verb .nothing rest
      if verb.takesFunction && after.function.isNone then .error (.refused .missingFunction)
      else
        let before ← orHalt found.settle
        return ⟨before, verb, after⟩
    | none =>
      if text = "help" && found.waiting?.isNone then .error (helpOn rest)
      else do
        match ← step none found text with
        | .more next => scan next rest
        | .onlyPlain next =>
          let last ← scanPlain none next rest
          let settled ← orHalt last.settle
          .error (.refused (if settled.given.isEmpty then .noArguments else .missingCommand))

end CallData.CommandLine
