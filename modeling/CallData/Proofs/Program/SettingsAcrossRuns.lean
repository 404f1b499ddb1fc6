/-
CallData/Proofs/Program/SettingsAcrossRuns.lean

The settings from one run to the next.

A visit changes the settings if it is asked to and succeeds, each of the two by itself; every other
visit leaves the file as it was (`visit_cases`).  What it saves is loaded again (`load_file`), so
along a sequence of visits each setting has the value that it was last given with success, or else
the one that it was loaded with in the beginning.

Main result: `settings_across_runs`.
-/
import CallData.Proofs.Program.Runs
import CallData.Proofs.Results

namespace CallData.Program

open CommandLine (Command Request parse)

variable {α : Type} {home : Home} {v : Visit} {visits : List Visit}

/-! ### What has been set -/

/-- What the arguments of a run ask for. -/
def asked? (field : Command → Option α) (args : List String) : Option α :=
  match parse args with
  | .ok request => field request.command
  | .error _ => none

/-- The value that a visit with this outcome has set: the one that it was asked for, if it
succeeded. -/
def set? (field : Command → Option α) (entry : Visit × Outcome) : Option α :=
  if entry.2.exit = 0 then asked? field entry.1.args else none

def lastSet? (field : Command → Option α) (entries : List (Visit × Outcome)) : Option α :=
  (entries.filterMap (set? field)).getLast?

/-- The visits and their outcomes. -/
def log (home : Home) (visits : List Visit) : List (Visit × Outcome) :=
  visits.zip (visitAll home visits).2

theorem lastSet?_cons (field : Command → Option α) (entry : Visit × Outcome)
    (entries : List (Visit × Outcome)) :
    lastSet? field (entry :: entries) = (lastSet? field entries).or (set? field entry) :=
  getLast?_filterMap_cons _ entry entries

/-! ### One visit -/

theorem settings_usable (s : Settings) : (Home.usable (some s.file)).settings = s :=
  Settings.load_file s

theorem asked?_eq_none_of_not_asksForChange (h : ¬ AsksForChange v.args) :
    asked? Command.hexMark? v.args = none ∧ asked? Command.format? v.args = none := by
  rw [asked?, asked?]
  split
  · rename_i request hrequest
    have hnone : ¬ request.command.changesSettings = true := fun hchanges =>
      h ⟨request, hrequest, hchanges⟩
    simpa [Command.changesSettings] using hnone
  · exact ⟨rfl, rfl⟩

/-- A visit gives each setting the value that it sets, and leaves it if it sets none. -/
theorem settings_visit (home : Home) (v : Visit) :
    let entry := (v, (visit home v).2)
    (visit home v).1.settings = ⟨(set? Command.hexMark? entry).getD home.settings.hexMark,
      (set? Command.format? entry).getD home.settings.format⟩ := by
  intro entry
  rcases visit_cases home v with ⟨-, request, -, hparse, -, hvisit⟩ | ⟨reason, hvisit⟩
  · have hexit : entry.2.exit = 0 := by
      show (visit home v).2.exit = 0
      rw [hvisit]
      rfl
    have hasked {α : Type} (field : Command → Option α) :
        set? field entry = field request.command := by
      rw [set?, if_pos hexit, asked?, hparse]
    rw [hvisit, settings_usable, hasked, hasked]
    rfl
  · have hnone : set? Command.hexMark? entry = none ∧ set? Command.format? entry = none := by
      rw [set?, set?]
      split
      · -- it succeeded, so it was asked for no change
        rename_i hexit
        refine asked?_eq_none_of_not_asksForChange fun hasks => ?_
        have hone : entry.2.exit = 1 := by
          show (visit home v).2.exit = 1
          rw [hvisit, exit_runReadOnly reason hasks]
        rw [hone] at hexit
        contradiction
      · exact ⟨rfl, rfl⟩
    rw [hnone.1, hnone.2, hvisit, fst_runReadOnly]
    rfl

/-! ### All visits -/

/-- Each setting has the value that it was set to last. -/
theorem settings_visitAll (home : Home) (visits : List Visit) :
    (visitAll home visits).1.settings =
      ⟨(lastSet? Command.hexMark? (log home visits)).getD home.settings.hexMark,
        (lastSet? Command.format? (log home visits)).getD home.settings.format⟩ := by
  induction visits generalizing home with
  | nil => rfl
  | cons v rest ih =>
    have hlog : log home (v :: rest) = (v, (visit home v).2) :: log (visit home v).1 rest := rfl
    rw [fst_visitAll_cons, hlog, lastSet?_cons, lastSet?_cons, ih, settings_visit, Option.getD_or,
      Option.getD_or]

/-- Where the directory cannot be used, it stays so, and no change succeeds. -/
theorem visit_occupied (v : Visit) : (visit .occupied v).1 = .occupied ∧
    (AsksForChange v.args → (visit .occupied v).2.exit = 1) := by
  rcases visit_cases .occupied v with ⟨file, request, hhome, -⟩ | ⟨reason, hvisit⟩
  · contradiction
  · rw [hvisit]
    exact ⟨fst_runReadOnly _ _ _, exit_runReadOnly reason⟩

theorem visitAll_occupied (visits : List Visit) : (visitAll .occupied visits).1 = .occupied := by
  induction visits with
  | nil => rfl
  | cons v rest ih =>
    rw [fst_visitAll_cons, (visit_occupied v).1, ih]

/-- The file changes only in a visit that is asked to change it and succeeds. -/
theorem asksForChange_of_visit_ne (h : (visit home v).1 ≠ home) :
    AsksForChange v.args ∧ (visit home v).2.exit = 0 := by
  rcases visit_cases home v with ⟨-, request, -, hparse, hchanges, hvisit⟩ | ⟨reason, hvisit⟩
  · exact ⟨⟨request, hparse, hchanges⟩, by rw [hvisit]; rfl⟩
  · rw [hvisit, fst_runReadOnly] at h
    contradiction

/-- **The settings across runs.**  Runs are visits that meet no obstacle.  The first visit loads the
settings that the file keeps, or the standard ones if it keeps none.  After any visits each setting
has the value that it was last set to by one that succeeded, or else the one that it had at first.
The file stays as it is in every visit that is asked for no change or fails.  Where the directory
cannot be used, every change fails and the standard settings stay in force. -/
theorem settings_across_runs (home : Home) (earlier : List Visit) :
    let now := (visitAll home earlier).1
    (∀ runs, runAll home runs = visitAll home (runs.map fun args => ⟨args, none⟩)) ∧
    (∀ file s, home.file? = some file → Settings.Keeps file s → home.settings = s) ∧
    ((∀ file s, home.file? = some file → ¬ Settings.Keeps file s) → home.settings = .standard) ∧
    now.settings = ⟨(lastSet? Command.hexMark? (log home earlier)).getD home.settings.hexMark,
      (lastSet? Command.format? (log home earlier)).getD home.settings.format⟩ ∧
    (∀ v, (visit now v).1 ≠ now → AsksForChange v.args ∧ (visit now v).2.exit = 0) ∧
    (home = .occupied → now = .occupied ∧ now.settings = .standard ∧
      ∀ v, AsksForChange v.args → (visit now v).2.exit = 1) := by
  intro now
  refine ⟨runAll_eq_visitAll home, ?_, Settings.load_of_not_keeps, settings_visitAll home earlier,
    fun v => asksForChange_of_visit_ne, ?_⟩
  · intro file s hfile hkeeps
    rw [Home.settings, hfile, Settings.load_of_keeps hkeeps]
  · rintro rfl
    have hnow : now = .occupied := visitAll_occupied earlier
    rw [hnow]
    exact ⟨rfl, rfl, fun v => (visit_occupied v).2⟩

/-- A file that gives one of the settings. -/
def partialHome : Home := .usable (some (Text.utf8 "output_format = \"words\""))

/-- The mark is set without success and with success, and then the format to an impossible value. -/
def sampleVisits : List Visit :=
  [⟨["config", "--set-hex-prefix", "true"], some "No space left on device (os error 28)"⟩,
    ⟨["config", "--set-hex-prefix", "false"], none⟩,
    ⟨["config", "--set-output-format", "decimal"], none⟩]

theorem settings_across_runs_sample :
    partialHome.settings = ⟨true, .words⟩ ∧
    (visitAll partialHome sampleVisits).1.settings = ⟨false, .words⟩ ∧
    (visit .occupied ⟨["config", "--set-hex-prefix", "false"], none⟩).2.exit = 1 := by
  obtain ⟨-, hkept, -, hnow, -⟩ := settings_across_runs partialHome sampleVisits
  obtain ⟨-, -, -, -, -, hoccupied⟩ := settings_across_runs .occupied []
  have hfirst : partialHome.settings = ⟨true, .words⟩ := by
    refine hkept _ _ rfl (Settings.keeps_iff.mpr ?_)
    rw [Text.ofUtf8?_utf8]
    decide +kernel
  refine ⟨hfirst, ?_, ?_⟩
  · have hmark : lastSet? Command.hexMark? (log partialHome sampleVisits) = some false := by rfl
    have hformat : lastSet? Command.format? (log partialHome sampleVisits) = none := by rfl
    rw [hnow, hmark, hformat, hfirst]
    rfl
  · obtain ⟨-, -, hfails⟩ := hoccupied rfl
    exact hfails _ ⟨_, rfl, rfl⟩

end CallData.Program
