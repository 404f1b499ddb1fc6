/-
CallData/Proofs/Program/Runs.lean

What a run does to the settings file.

A command that asks for a change of the settings saves them, and no other command touches the file.
The file may turn out not to be writable during a run; the change then fails as a whole
(`runReadOnly`), and that is how every such run ends where the directory cannot be used
(`run_occupied`).  A `Visit` is a run in a sequence of them, with the obstacle that it meets if any.
`visit_cases` says once what a visit can do.
-/
import CallData.Program
import CallData.Proofs.Results
import CallData.Proofs.Settings

namespace CallData

open CommandLine (Command Request parse)

/-! ### Commands that ask for a change -/

namespace CommandLine.Command

/-- Whether output is to be marked from now on, if the command says so. -/
def hexMark? : Command → Option Bool
  | config _ hexMark _ => hexMark
  | _ => none

/-- The format of output from now on, if the command says so. -/
def format? : Command → Option DataFormat
  | config _ _ format => format
  | _ => none

def changesSettings (c : Command) : Bool := c.hexMark?.isSome || c.format?.isSome

end CommandLine.Command

namespace Program

variable {home : Home} {command : Command} {request : Request} {args : List String}

/-- The settings after the changes that a command asks for. -/
def changedBy (command : Command) (s : Settings) : Settings :=
  CallData.Command.changed s command.hexMark? command.format?

theorem execute_of_changing (h : command.changesSettings = true) :
    execute home command =
      (home.save (changedBy command home.settings)).map fun home' =>
        (home', CallData.Command.saved) := by
  cases command with
  | config wantsShow hexMark format =>
    have hsome : (hexMark.isSome || format.isSome) = true := h
    rw [execute, CallData.Command.configure, if_pos hsome]
    show (home.save (changedBy (.config wantsShow hexMark format) home.settings) >>= _) = _
    rcases home.save _ with _ | _ <;> rfl
  | selector function types expected => contradiction
  | encode function types params => contradiction

theorem execute_selector (home : Home) (function : String) (types : List String)
    (expected : Option Selector) :
    execute home (.selector function types expected) =
      (CallData.Command.describe home.settings function types expected).map fun report =>
        (home, report) := by
  rw [execute]
  rcases CallData.Command.describe _ _ _ _ with _ | _ <;> rfl

theorem execute_encode (home : Home) (function : String) (types params : List String) :
    execute home (.encode function types params) =
      (CallData.Command.encode home.settings function types params).map fun report =>
        (home, report) := by
  rw [execute]
  rcases CallData.Command.encode _ _ _ _ with _ | _ <;> rfl

/-- A command that asks for no change leaves the file alone. -/
theorem execute_of_unchanging (home : Home) (h : command.changesSettings = false) :
    ∃ result : Except CallData.Command.Error Report,
      execute home command = result.map fun report => (home, report) := by
  cases command with
  | selector function types expected => exact ⟨_, execute_selector home function types expected⟩
  | encode function types params => exact ⟨_, execute_encode home function types params⟩
  | config wantsShow hexMark format =>
    have hnone : ¬ (hexMark.isSome || format.isSome) = true := Bool.eq_false_iff.mp h
    rw [execute, CallData.Command.configure, if_neg hnone]
    split
    · exact ⟨.ok _, rfl⟩
    · exact ⟨.ok _, rfl⟩

/-! ### Runs -/

theorem run_of_parse (h : parse args = .ok request) : run home args = serve home request := by
  rw [run, h]

/-- The outcome of a command with this report, or with this failure. -/
def outcomeOf (json : Bool) : Except CallData.Command.Error Report → Outcome
  | .ok report => .success json report
  | .error error => .failure json error

/-- Where a command leaves the file alone, all that counts is what it reports. -/
theorem serve_of_report {result : Except CallData.Command.Error Report}
    (h : execute home request.command = result.map fun report => (home, report)) :
    serve home request = (home, outcomeOf request.json result) := by
  rw [serve, h]
  rcases result with _ | _ <;> rfl

theorem fst_serve_of_unchanging (h : request.command.changesSettings = false) :
    (serve home request).1 = home := by
  obtain ⟨result, hresult⟩ := execute_of_unchanging home h
  rw [serve_of_report hresult]

/-- A run during which the settings file cannot be written, for the reason that the system gives. -/
def runReadOnly (reason : String) (home : Home) (args : List String) : Home × Outcome :=
  match parse args with
  | .ok request =>
    if request.command.changesSettings then (home, .failure request.json (.storage reason))
    else serve home request
  | .error halt => (home, .halted halt)

/-- The arguments ask for a change of the settings. -/
def AsksForChange (args : List String) : Prop :=
  ∃ request, parse args = .ok request ∧ request.command.changesSettings = true

theorem fst_runReadOnly (reason : String) (home : Home) (args : List String) :
    (runReadOnly reason home args).1 = home := by
  rw [runReadOnly]
  split
  · split
    · rfl
    · rename_i h
      exact fst_serve_of_unchanging (Bool.eq_false_iff.mpr h)
  · rfl

theorem exit_runReadOnly (reason : String) (h : AsksForChange args) :
    (runReadOnly reason home args).2.exit = 1 := by
  obtain ⟨request, hrequest, hchanges⟩ := h
  rw [runReadOnly, hrequest]
  simp only [hchanges, if_true]
  cases request.json <;> rfl

theorem run_usable {file : Option Bytes} (h : parse args = .ok request)
    (hchanges : request.command.changesSettings = true) :
    run (.usable file) args =
      (.usable (some (changedBy request.command (Home.usable file).settings).file),
        .success request.json CallData.Command.saved) := by
  rw [run_of_parse h, serve, execute_of_changing hchanges]
  rfl

/-- Where the directory cannot be used, no run can write the file. -/
theorem run_occupied (args : List String) :
    run .occupied args = runReadOnly "File exists (os error 17)" .occupied args := by
  rw [run, runReadOnly]
  rcases parse args with halt | request
  · rfl
  · show serve .occupied request = _
    dsimp only
    split
    · rename_i hchanges
      rw [serve, execute_of_changing hchanges]
      rfl
    · rfl

/-- A run that does not have to write the file does not depend on whether it could. -/
theorem run_of_not_asksForChange (h : ¬ AsksForChange args) (reason : String) :
    run home args = runReadOnly reason home args := by
  rw [run, runReadOnly]
  rcases hparse : parse args with halt | request
  · rfl
  · have hunchanging : ¬ request.command.changesSettings = true := fun hchanges =>
      h ⟨request, hparse, hchanges⟩
    dsimp only
    rw [if_neg hunchanging]

/-! ### Visits -/

/-- A run in a sequence of runs. -/
structure Visit where
  args : List String
  /-- Why the settings file cannot be written during the run, if it cannot. -/
  obstacle : Option String

def visit (home : Home) (v : Visit) : Home × Outcome :=
  match v.obstacle with
  | none => run home v.args
  | some reason => runReadOnly reason home v.args

/-- Visits one after the other. -/
def visitAll (home : Home) : List Visit → Home × List Outcome
  | [] => (home, [])
  | v :: rest =>
    let later := visitAll (visit home v).1 rest
    (later.1, (visit home v).2 :: later.2)

theorem fst_visitAll_cons (home : Home) (v : Visit) (rest : List Visit) :
    (visitAll home (v :: rest)).1 = (visitAll (visit home v).1 rest).1 := rfl

/-- Runs are visits that meet no obstacle. -/
theorem runAll_eq_visitAll (home : Home) (runs : List (List String)) :
    runAll home runs = visitAll home (runs.map fun args => ⟨args, none⟩) := by
  induction runs generalizing home with
  | nil => rfl
  | cons args rest ih =>
    have hcons : runAll home (args :: rest) = ((runAll (run home args).1 rest).1,
        (run home args).2 :: (runAll (run home args).1 rest).2) := rfl
    rw [hcons, ih]
    rfl

/-- What a visit does: it saves the changes that it is asked for, or it ends as one that cannot. -/
theorem visit_cases (home : Home) (v : Visit) :
    (∃ file request, home = .usable file ∧ parse v.args = .ok request ∧
      request.command.changesSettings = true ∧ visit home v =
        (.usable (some (changedBy request.command home.settings).file),
          .success request.json CallData.Command.saved)) ∨
    ∃ reason, visit home v = runReadOnly reason home v.args := by
  obtain ⟨args, _ | reason⟩ := v
  · by_cases hasks : AsksForChange args
    · rcases home with file | _
      · obtain ⟨request, hparse, hchanges⟩ := hasks
        exact .inl ⟨file, request, rfl, hparse, hchanges, run_usable hparse hchanges⟩
      · exact .inr ⟨_, run_occupied args⟩
    · exact .inr ⟨"", run_of_not_asksForChange hasks ""⟩
  · exact .inr ⟨reason, rfl⟩

end Program

end CallData
