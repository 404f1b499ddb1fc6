/-
CallData/Proofs/CommandLine/Arrangement.lean

The arguments of the command that encodes a call, in any arrangement.

The function, the type names and the parameter texts may be given in any order, as long as each type
name and each parameter text stands behind its own switch (`Arranged`).  A parameter text is
whatever stands behind its switch, even if it looks like a switch itself.

A value is only read when the next switch or function comes, so in the middle of the arguments one
value is usually still to be read.  The invariant therefore speaks of what would be found if it were
read now (`Ready`).  A switch and its value lead from there to the same with one more value
(`scanAfter_pair`), whatever the value looks like; so going through the arguments comes back into
step behind every pair, and ends with all the types and all the parameters in their order
(`scanAfter_of_arranged`).

Main result: `run_of_encodeLine`.
-/
import CallData.Proofs.CommandLine.JsonSwitch
import CallData.Proofs.Program.Runs

namespace CallData.CommandLine

/-! ### Arrangements -/

/-- The text does not begin with a dash. -/
def Dashless (text : String) : Prop := text.toList.head? ≠ some '-'

instance (text : String) : Decidable (Dashless text) := inferInstanceAs (Decidable (¬ _))

/-- The arguments consist of the function if there is one, each type name and each parameter text
behind its switch, and the switch for programs if `json` says so.  The type names and the parameter
texts stand in their order, and otherwise nothing is said about the order. -/
inductive Arranged : Option String → List String → List String → Bool → List String → Prop where
  | nil : Arranged none [] [] false []
  | function {text types params json args} :
      Dashless text → Arranged none types params json args →
      Arranged (some text) types params json (text :: args)
  | type {spelling name function types params json args} :
      spelling = "-t" ∨ spelling = "--type" → Dashless name →
      Arranged function types params json args →
      Arranged function (name :: types) params json (spelling :: name :: args)
  | param {spelling raw function types params json args} :
      spelling = "-p" ∨ spelling = "--param" →
      Arranged function types params json args →
      Arranged function types (raw :: params) json (spelling :: raw :: args)
  | json {function types params args} :
      Arranged function types params false args →
      Arranged function types params true ("--json" :: args)

/-- The arguments of a run that is to encode a call of the function.  The switch for programs may
stand in front of the command instead of behind it. -/
inductive EncodeLine (function : String) (types params : List String) :
    Bool → List String → Prop where
  | behind {json args} :
      Arranged (some function) types params json args →
      EncodeLine function types params json ("encode" :: args)
  | inFront {args} :
      Arranged (some function) types params false args →
      EncodeLine function types params true ("--json" :: "encode" :: args)

variable {found settled next : Found} {verb : Option Verb} {switch : Switch} {g : Given}
variable {text value : String} {rest args : List String}

/-! ### What is found once it is read -/

/-- With one more value found. -/
def Found.add (found : Found) (g : Given) : Found := { found with given := found.given ++ [g] }

theorem Found.types_add (found : Found) (g : Given) :
    (found.add g).types = found.types ++ g.type?.toList := by
  rw [types, add, List.filterMap_append]
  rfl

theorem Found.params_add (found : Found) (g : Given) :
    (found.add g).params = found.params ++ g.param?.toList := by
  rw [params, add, List.filterMap_append]
  rfl

theorem Found.has_add (found : Found) (g : Given) (switch : Switch) :
    (found.add g).has switch = (found.has switch || g.switch == switch) := by
  simp [has, add]

/-- No switch waits for its value, and `settled` is what is found once the value that is still to be
read has been read. -/
structure Ready (found settled : Found) : Prop where
  waiting?_eq : found.waiting? = none
  settle_eq : found.settle = .ok settled

/-- Reading the value that is still to be read leaves none behind, and keeps the function. -/
theorem Found.of_settle (h : found.settle = .ok settled) :
    settled.pending = none ∧ settled.function = found.function := by
  obtain ⟨given, function, _ | ⟨switch, _ | text⟩⟩ := found
  · obtain rfl := Except.ok.inj h
    exact ⟨rfl, rfl⟩
  · contradiction
  · obtain ⟨⟨⟩, -, h⟩ := bind_eq_ok_iff.mp h
    obtain ⟨g, -, h⟩ := bind_eq_ok_iff.mp h
    obtain rfl := Except.ok.inj h
    exact ⟨rfl, rfl⟩

theorem Ready.pending_eq (h : Ready found settled) : settled.pending = none :=
  (Found.of_settle h.settle_eq).1

theorem Ready.function_eq (h : Ready found settled) : settled.function = found.function :=
  (Found.of_settle h.settle_eq).2

/-- Where nothing is still to be read, all has been found. -/
theorem ready_self (h : found.pending = none) : Ready found found := by
  obtain ⟨given, function, pending⟩ := found
  obtain rfl : pending = none := h
  exact ⟨rfl, rfl⟩

/-! ### Single arguments -/

theorem ofString_of_dashless (h : Dashless text) : Argument.ofString text = .plain text := by
  have hplain (cs : List Char) (hcs : cs.head? ≠ some '-') :
      Argument.ofChars cs = .plain (String.ofList cs) := by
    fun_cases Argument.ofChars cs with
    | case5 => rfl
    | _ => exact absurd rfl hcs
  rw [Argument.ofString, hplain _ h, String.ofList_toList]

theorem ne_stop_of_dashless (h : Dashless text) : text ≠ "--" := by
  rintro rfl
  exact h rfl

/-- Where no switch waits for it, an argument other than the stop mark is taken in by itself. -/
theorem step_of_ready (h : Ready found settled) (hstop : text ≠ "--") :
    step verb found text = (take verb found text).map .more := by
  rw [step, h.waiting?_eq]
  exact if_neg hstop

theorem scanAfter_cons {verb : Verb} (h : step (some verb) found text = .ok (.more next)) :
    scanAfter verb found (text :: rest) = scanAfter verb next rest := by
  rw [scanAfter, h]
  rfl

/-- The value of a switch is taken as it stands, if the switch takes anything or the value cannot be
taken for a switch itself. -/
theorem step_value (h : switch.takesAnything = true ∨ Dashless value) :
    step verb { settled with pending := some (switch, none) } value =
      .ok (.more { settled with pending := some (switch, some value) }) := by
  have hwaiting :
      ({ settled with pending := some (switch, none) } : Found).waiting? = some switch :=
    rfl
  rw [step, hwaiting]
  by_cases hany : switch.takesAnything = true
  · exact if_pos hany
  · have hvalue : Dashless value := h.resolve_left hany
    show (if switch.takesAnything then _ else _) = _
    rw [if_neg hany, if_neg (ne_stop_of_dashless hvalue), take, hwaiting,
      ofString_of_dashless hvalue]
    rfl

/-- A switch that may be repeated is added with its value once that is read. -/
theorem ready_of_value (hpending : settled.pending = none) (hrepeats : switch.repeats = true)
    (hread : Found.read switch value = .ok g) :
    Ready { settled with pending := some (switch, some value) } (settled.add g) := by
  obtain ⟨given, function, pending⟩ := settled
  obtain rfl : pending = none := hpending
  refine ⟨rfl, ?_⟩
  show Found.accept ⟨given, function, none⟩ switch value = _
  rw [Found.accept, Found.checkFirst, hrepeats, hread]
  rfl

/-! ### Pairs -/

/-- **A switch and its value** lead to the same point with the value added. -/
theorem scanAfter_pair {verb : Verb} {spelling : String} (h : Ready found settled)
    (hstop : spelling ≠ "--")
    (htake : take (some verb) found spelling = orHalt (found.addValued switch none))
    (hvalue : switch.takesAnything = true ∨ Dashless value) (hrepeats : switch.repeats = true)
    (hread : Found.read switch value = .ok g) (rest : List String) :
    ∃ next, Ready next (settled.add g) ∧
      scanAfter verb found (spelling :: value :: rest) = scanAfter verb next rest := by
  have hswitch : step (some verb) found spelling =
      .ok (.more { settled with pending := some (switch, none) }) := by
    rw [step_of_ready h hstop, htake, Found.addValued, h.settle_eq]
    rfl
  refine ⟨_, ready_of_value h.pending_eq hrepeats hread, ?_⟩
  rw [scanAfter_cons hswitch, scanAfter_cons (step_value hvalue)]

theorem scanAfter_type {spelling name : String} (h : Ready found settled)
    (hspelling : spelling = "-t" ∨ spelling = "--type") (hname : Dashless name)
    (rest : List String) :
    ∃ next, Ready next (settled.add (.type name)) ∧
      scanAfter .encode found (spelling :: name :: rest) = scanAfter .encode next rest := by
  refine scanAfter_pair h ?_ ?_ (.inr hname) (show Switch.type.repeats = true from rfl) rfl rest
  · rcases hspelling with rfl | rfl <;> decide
  · rw [take, h.waiting?_eq]
    rcases hspelling with rfl | rfl <;> rfl

theorem scanAfter_param {spelling raw : String} (h : Ready found settled)
    (hspelling : spelling = "-p" ∨ spelling = "--param") (rest : List String) :
    ∃ next, Ready next (settled.add (.param raw)) ∧
      scanAfter .encode found (spelling :: raw :: rest) = scanAfter .encode next rest := by
  refine scanAfter_pair h ?_ ?_ (.inl rfl) (show Switch.param.repeats = true from rfl) rfl rest
  · rcases hspelling with rfl | rfl <;> decide
  · rw [take, h.waiting?_eq]
    rcases hspelling with rfl | rfl <;> rfl

/-! ### Other arguments -/

theorem scanAfter_function (h : Ready found settled) (htext : Dashless text)
    (hfirst : settled.function = none) (rest : List String) :
    ∃ next, Ready next { settled with function := some text } ∧
      scanAfter .encode found (text :: rest) = scanAfter .encode next rest := by
  have htake : take (some .encode) found text = orHalt (found.addFunction text) := by
    rw [take, h.waiting?_eq, ofString_of_dashless htext]
    have hnone : (Verb.encode.takesFunction && found.function.isNone) = true := by
      rw [← h.function_eq, hfirst]
      rfl
    exact if_pos hnone
  have hstep : step (some .encode) found text =
      .ok (.more { settled with function := some text }) := by
    rw [step_of_ready h (ne_stop_of_dashless htext), htake, Found.addFunction, h.settle_eq]
    rfl
  have hready :
      Ready { settled with function := some text } { settled with function := some text } :=
    ready_self h.pending_eq
  exact ⟨_, hready, scanAfter_cons hstep⟩

theorem scanAfter_json (h : Ready found settled) (hfirst : settled.has .json = false)
    (rest : List String) :
    ∃ next, Ready next (settled.add .json) ∧
      scanAfter .encode found ("--json" :: rest) = scanAfter .encode next rest := by
  have htake : take (some .encode) found "--json" = orHalt (found.addFlag .json) := by
    rw [take, h.waiting?_eq]
    rfl
  have hcheck : settled.checkFirst Given.json.switch = .ok () := by
    rw [Found.checkFirst, Given.switch, hfirst]
    rfl
  have hstep : step (some .encode) found "--json" = .ok (.more (settled.add .json)) := by
    rw [step_of_ready h (by decide), htake, Found.addFlag, h.settle_eq, ok_bind, hcheck]
    rfl
  have hready : Ready (settled.add .json) (settled.add .json) := ready_self h.pending_eq
  exact ⟨_, hready, scanAfter_cons hstep⟩

/-! ### All arguments -/

/-- What has been found at the end beyond what had been found before. -/
structure Adds (before last : Found) (function : Option String) (types params : List String)
    (json : Bool) : Prop where
  function_eq : last.function = function.or before.function
  types_eq : last.types = before.types ++ types
  params_eq : last.params = before.params ++ params
  json_eq : last.has .json = (before.has .json || json)

section Adds

variable {before last : Found} {function : Option String} {types params : List String} {json : Bool}
variable {name raw : String}

theorem adds_self : Adds last last none [] [] false := by
  constructor <;> simp

theorem Adds.of_function
    (h : Adds { before with function := some text } last none types params json) :
    Adds before last (some text) types params json :=
  ⟨h.function_eq, h.types_eq, h.params_eq, h.json_eq⟩

theorem Adds.of_add (h : Adds (before.add g) last function types params json) :
    Adds before last function (g.type?.toList ++ types) (g.param?.toList ++ params)
      (g.switch == .json || json) := by
  refine ⟨h.function_eq, ?_, ?_, ?_⟩
  · rw [h.types_eq, Found.types_add, List.append_assoc]
  · rw [h.params_eq, Found.params_add, List.append_assoc]
  · rw [h.json_eq, Found.has_add, Bool.or_assoc]

/-- **All arguments are found**, whatever their arrangement. -/
theorem scanAfter_of_arranged (h : Arranged function types params json args)
    (hready : Ready found settled) (hfunction : function ≠ none → settled.function = none)
    (hjson : json = true → settled.has .json = false) :
    ∃ last, scanAfter .encode found args = .ok last ∧
      Adds settled last function types params json := by
  -- along the arguments `settled` grows by what has been given, and is in step behind each pair
  induction h generalizing found settled with
  | nil =>
    refine ⟨settled, ?_, adds_self⟩
    rw [scanAfter, hready.settle_eq]
    rfl
  | @function text types params json args htext _ ih =>
    obtain ⟨next, hnext, hscan⟩ := scanAfter_function hready htext (hfunction (by simp)) args
    obtain ⟨last, hlast, hadds⟩ := ih hnext (fun hne => absurd rfl hne) hjson
    exact ⟨last, hscan.trans hlast, hadds.of_function⟩
  | @type spelling name function types params json args hspelling hname _ ih =>
    obtain ⟨next, hnext, hscan⟩ := scanAfter_type hready hspelling hname args
    obtain ⟨last, hlast, hadds⟩ := ih hnext hfunction fun hj => by
      rw [Found.has_add, hjson hj]
      rfl
    exact ⟨last, hscan.trans hlast, hadds.of_add⟩
  | @param spelling raw function types params json args hspelling _ ih =>
    obtain ⟨next, hnext, hscan⟩ := scanAfter_param hready hspelling args
    obtain ⟨last, hlast, hadds⟩ := ih hnext hfunction fun hj => by
      rw [Found.has_add, hjson hj]
      rfl
    exact ⟨last, hscan.trans hlast, hadds.of_add⟩
  | @json function types params args _ ih =>
    obtain ⟨next, hnext, hscan⟩ := scanAfter_json hready (hjson rfl) args
    obtain ⟨last, hlast, hadds⟩ := ih hnext hfunction (fun hfalse => nomatch hfalse)
    exact ⟨last, hscan.trans hlast, hadds.of_add⟩

/-- What is found behind a command is what the run is asked for. -/
theorem parse_of_scanAfter {verb : Verb} {name : String} (hverb : verbOf? .nothing name = some verb)
    (hlast : scanAfter verb .nothing args = .ok last) (hfunction : last.function = some text) :
    parse (name :: args) = .ok ⟨last.has .json, Scanned.command ⟨.nothing, verb, last⟩⟩ := by
  have hscan : scan .nothing (name :: args) = .ok ⟨.nothing, verb, last⟩ := by
    rw [scan, hverb]
    simp only [hlast, ok_bind, hfunction, Option.isNone_some, Bool.and_false]
    rfl
  rw [parse, hscan]
  rfl

end Adds

section EncodeLine

variable {function : String} {types params : List String} {json : Bool}

theorem parse_of_arranged (h : Arranged (some function) types params json args) :
    parse ("encode" :: args) = .ok ⟨json, .encode function types params⟩ := by
  obtain ⟨last, hlast, hadds⟩ :=
    scanAfter_of_arranged h (ready_self (rfl : Found.nothing.pending = none)) (fun _ => rfl)
      (fun _ => rfl)
  have hfunction : last.function = some function := hadds.function_eq
  have hcommand : Scanned.command ⟨.nothing, .encode, last⟩ = .encode function types params := by
    rw [Scanned.command, hfunction, hadds.types_eq, hadds.params_eq]
    rfl
  rw [parse_of_scanAfter rfl hlast hfunction, hadds.json_eq, hcommand]
  rfl

theorem parse_of_encodeLine (h : EncodeLine function types params json args) :
    parse args = .ok ⟨json, .encode function types params⟩ := by
  cases h with
  | behind h => exact parse_of_arranged h
  | inFront h => exact parse_cons_json (parse_of_arranged h)

end EncodeLine

end CallData.CommandLine

namespace CallData.Program

open CommandLine (EncodeLine)

variable {function : String} {types params args : List String} {json : Bool}

/-- **Parameter texts cannot interfere with the command line.**  In whatever arrangement the
function, the types and the parameters are given, and whatever the parameter texts look like, the
run ends as encoding ends with them, with output for programs exactly if that is asked for.  So
different arrangements come to the same. -/
theorem run_of_encodeLine (home : Home) (h : EncodeLine function types params json args) :
    run home args =
      (home, outcomeOf json (Command.encode home.settings function types params)) ∧
    ∀ args', EncodeLine function types params json args' → run home args' = run home args := by
  have hrun (args : List String) (h : EncodeLine function types params json args) :
      run home args =
        (home, outcomeOf json (Command.encode home.settings function types params)) := by
    rw [run_of_parse (CommandLine.parse_of_encodeLine h)]
    exact serve_of_report (execute_encode home function types params)
  refine ⟨hrun args h, fun args' h' => ?_⟩
  rw [hrun args h, hrun args' h']

/-- Parameters that look like the switches around them, scattered among two types. -/
def scatteredLine : List String :=
  ["encode", "-p", "--json", "-t", "string", "f", "-p", "-t", "--type", "string"]

theorem run_of_encodeLine_sample :
    EncodeLine "f" ["string", "string"] ["--json", "-t"] false scatteredLine ∧
    run (.usable none) scatteredLine = (.usable none, outcomeOf false
      (Command.encode .standard "f" ["string", "string"] ["--json", "-t"])) ∧
    run (.usable none) ["encode", "f", "-t", "string", "-t", "string", "-p", "--json", "-p", "-t"] =
      run (.usable none) scatteredLine := by
  have hscattered : EncodeLine "f" ["string", "string"] ["--json", "-t"] false scatteredLine :=
    .behind (.param (.inl rfl) (.type (.inl rfl) (by decide) (.function (by decide)
      (.param (.inl rfl) (.type (.inr rfl) (by decide) .nil)))))
  have hsorted : EncodeLine "f" ["string", "string"] ["--json", "-t"] false
      ["encode", "f", "-t", "string", "-t", "string", "-p", "--json", "-p", "-t"] :=
    .behind (.function (by decide) (.type (.inl rfl) (by decide) (.type (.inl rfl) (by decide)
      (.param (.inl rfl) (.param (.inl rfl) .nil)))))
  obtain ⟨hrun, hsame⟩ := run_of_encodeLine (.usable none) hscattered
  exact ⟨hscattered, hrun, hsame _ hsorted⟩

end CallData.Program
