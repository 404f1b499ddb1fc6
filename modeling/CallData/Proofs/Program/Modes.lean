/-
CallData/Proofs/Program/Modes.lean

A run tells programs and people the same.

A command ends in the same way whoever its output is for; only then is the output written, as a
message for people or as a document with fields for programs.  `TellsSelector`, `TellsData` and
`TellsFailure` say what the two have to do with each other, and the fields of the document among
themselves, in the three ways in which describing and encoding can end.

Main result: `modes_agree`.
-/
import CallData.Proofs.Abi.Layout
import CallData.Proofs.Command.PrintedSignature
import CallData.Proofs.CommandLine.JsonSwitch
import CallData.Proofs.Json.ReadBack
import CallData.Proofs.Program.Runs

namespace CallData

/-! ### Outcomes -/

namespace Outcome

variable {report : Report} {message : String}

theorem success_message (h : report.message = some message) :
    success false report = ⟨0, line message, ""⟩ := by
  show Outcome.mk 0 (report.message.elim "" line) "" = _
  rw [h]
  rfl

/-- A report is read back from the document that shows it. -/
theorem parse?_success (report : Report) :
    Json.parse? (success true report).out = some (.object (Json.entries report.fields)) :=
  Json.parse?_line (Json.isReadAs_prettyObject report.fields)

/-- So is the message of a failure. -/
theorem parse?_failure (error : Command.Error) : Json.parse? (failure true error).out =
    some (.object [("error", .string error.message), ("success", .bool false)]) :=
  Json.parse?_line (Json.isReadAs_compactObject
    [("error", .text error.message), ("success", .flag false)])

end Outcome

/-! ### What the outputs have to do with each other -/

/-- A command has failed with this message. -/
structure TellsFailure (text json : Outcome) (message : String) : Prop where
  exits : text.exit = 1 ∧ json.exit = 1
  errors : text.err = "Error: " ++ message ++ "\n" ∧ json.err = ""
  text_out : text.out = ""
  document : Json.parse? json.out =
    some (.object [("error", .string message), ("success", .bool false)])

/-- A function has been described, by its selector as the expected one if there is one. -/
structure TellsSelector (text json : Outcome) (wasExpected : Bool) (selector signature : String) :
    Prop where
  exits : text.exit = 0 ∧ json.exit = 0
  errors : text.err = "" ∧ json.err = ""
  text_out : text.out = selector ++ "  " ++ signature ++ "\n"
  document : Json.parse? json.out = some (.object
    ((if wasExpected then [("matches", .bool true)] else []) ++
      [("selector", .string selector), ("signature", .string signature)]))

/-- A call has been encoded as these bytes.  Their number is told as one of 64 bits, which no bytes
in memory exceed. -/
structure TellsData (text json : Outcome) (data selector signature : String) (bytes : Bytes) :
    Prop where
  exits : text.exit = 0 ∧ json.exit = 0
  errors : text.err = "" ∧ json.err = ""
  text_out : ∃ shown, text.out = shown ++ "\n" ∧ withoutLineEnds shown.toList = data.toList
  document : Json.parse? json.out = some (.object
    [("data", .string data), ("length", .number (.ofNat (bytes.length % 2 ^ 64))),
      ("selector", .string selector), ("signature", .string signature)])
  beginning : selector.toList <+: data.toList
  decoded : Hex.decode (Hex.unmarked (Text.utf8 data)) = .ok bytes
  words : bytes.length % 32 = 4
  digest : bytes.take 4 = (Keccak.hash (Text.utf8 signature)).bytes.take 4

theorem tellsFailure (error : Command.Error) :
    TellsFailure (.failure false error) (.failure true error) error.message where
  exits := ⟨rfl, rfl⟩
  errors := ⟨rfl, rfl⟩
  text_out := rfl
  document := Outcome.parse?_failure error

theorem tellsSelector (settings : Settings) (sig : Signature) (wasExpected : Bool) :
    let report := Command.selectorReport settings sig wasExpected
    TellsSelector (.success false report) (.success true report) wasExpected
      (settings.hexText sig.selector.bytes) sig.render := by
  have hmessage : (Command.selectorReport settings sig wasExpected).message =
      some (settings.hexText sig.selector.bytes ++ "  " ++ sig.render) := by
    cases wasExpected <;> rfl
  constructor
  case exits => exact ⟨rfl, rfl⟩
  case errors => exact ⟨rfl, rfl⟩
  case text_out =>
    rw [Outcome.success_message hmessage]
    rfl
  case document =>
    rw [Outcome.parse?_success]
    cases wasExpected <;> rfl

theorem length_dataOf_mod (selector : Selector) (params : List Abi.Param) :
    (Call.dataOf selector params).length % 32 = 4 := by
  obtain ⟨words, hwords⟩ := Abi.dvd_length_encode params
  rw [Call.length_dataOf, hwords]
  omega

theorem tellsData (settings : Settings) (sig : Signature) (params : List Abi.Param) :
    let bytes := Call.dataOf sig.selector params
    let report := Command.dataReport settings sig bytes
    TellsData (.success false report) (.success true report) (settings.hexText bytes)
      (settings.hexText (bytes.take 4)) sig.render bytes := by
  intro bytes report
  constructor
  case exits => exact ⟨rfl, rfl⟩
  case errors => exact ⟨rfl, rfl⟩
  case text_out =>
    have hmessage : report.message = some (settings.dataText bytes) := rfl
    rw [Outcome.success_message hmessage]
    exact ⟨settings.dataText bytes, rfl, settings.withoutLineEnds_dataText bytes⟩
  case document =>
    rw [Outcome.parse?_success]
    rfl
  case beginning => exact settings.beginning_hexText bytes 4
  case decoded => exact settings.decode_hexText bytes
  case words => exact length_dataOf_mod sig.selector params
  case digest => exact Call.take_dataOf sig.selector params

/-! ### Runs -/

namespace Program

open CommandLine (parse)

variable {home : Home} {args args' : List String}

theorem modes_agree_selector {function : String} {types : List String} {expected : Option Selector}
    (h : parse args = .ok ⟨false, .selector function types expected⟩)
    (h' : parse args' = .ok ⟨true, .selector function types expected⟩) :
    (∃ selector signature,
      TellsSelector (run home args).2 (run home args').2 expected.isSome selector signature) ∨
    ∃ message, TellsFailure (run home args).2 (run home args').2 message := by
  have hexecute := execute_selector home function types expected
  rw [run_of_parse h, run_of_parse h', serve_of_report hexecute, serve_of_report hexecute]
  rcases hreport : Command.describe home.settings function types expected with error | report
  · exact .inr ⟨error.message, tellsFailure error⟩
  · obtain ⟨sig, -, -, rfl⟩ := Command.describe_eq_ok_iff.mp hreport
    exact .inl ⟨_, _, tellsSelector home.settings sig expected.isSome⟩

theorem modes_agree_encode {function : String} {types params : List String}
    (h : parse args = .ok ⟨false, .encode function types params⟩)
    (h' : parse args' = .ok ⟨true, .encode function types params⟩) :
    (∃ data selector signature bytes,
      TellsData (run home args).2 (run home args').2 data selector signature bytes) ∨
    ∃ message, TellsFailure (run home args).2 (run home args').2 message := by
  have hexecute := execute_encode home function types params
  rw [run_of_parse h, run_of_parse h', serve_of_report hexecute, serve_of_report hexecute]
  rcases hreport : Command.encode home.settings function types params with error | report
  · exact .inr ⟨error.message, tellsFailure error⟩
  · obtain ⟨sig, vs, call, bytes, -, -, hadd, hbytes, rfl⟩ := Command.encode_eq_ok_iff.mp hreport
    obtain rfl := Command.eq_dataOf_of_encode (Call.name_of_addAll hadd) hbytes
    exact .inl ⟨_, _, _, _, tellsData home.settings ⟨sig.name, call.types⟩ call.params⟩

/-- **Both modes tell the same.**  Arguments that do not ask for output for programs can be made to
by one switch, and ask for the same command.  Where two runs are for the same command, for people
and for programs, both succeed or both fail; what the one prints is what the document of the other
holds; and the document's fields agree with each other. -/
theorem modes_agree (home : Home) (args : List String) :
    (∀ command, parse args = .ok ⟨false, command⟩ →
      parse ("--json" :: args) = .ok ⟨true, command⟩) ∧
    ∀ args',
      let text := (run home args).2
      let json := (run home args').2
      (∀ function types expected,
        parse args = .ok ⟨false, .selector function types expected⟩ →
        parse args' = .ok ⟨true, .selector function types expected⟩ →
        (∃ selector signature, TellsSelector text json expected.isSome selector signature) ∨
          ∃ message, TellsFailure text json message) ∧
      (∀ function types params,
        parse args = .ok ⟨false, .encode function types params⟩ →
        parse args' = .ok ⟨true, .encode function types params⟩ →
        (∃ data selector signature bytes, TellsData text json data selector signature bytes) ∨
          ∃ message, TellsFailure text json message) :=
  ⟨fun _ h => CommandLine.parse_cons_json h, fun _ =>
    ⟨fun _ _ _ h h' => modes_agree_selector h h', fun _ _ _ h h' => modes_agree_encode h h'⟩⟩

/-- A function is described, a call is encoded, and a parameter is refused. -/
theorem modes_agree_sample :
    let home := Home.usable none
    parse ["--json", "selector", "f"] = .ok ⟨true, .selector "f" [] none⟩ ∧
    (∃ selector signature, TellsSelector (run home ["selector", "f"]).2
      (run home ["selector", "f", "--json"]).2 false selector signature) ∧
    (∃ data selector signature bytes, TellsData (run home ["encode", "f", "-p7"]).2
      (run home ["encode", "--json", "f", "-p7"]).2 data selector signature bytes) ∧
    ∃ message, TellsFailure (run home ["encode", "f", "-ptrue"]).2
      (run home ["encode", "--json", "f", "-ptrue"]).2 message := by
  intro home
  obtain ⟨hswitch, hselector⟩ := modes_agree home ["selector", "f"]
  obtain ⟨-, hencode⟩ := modes_agree home ["encode", "f", "-p7"]
  obtain ⟨-, hrefused⟩ := modes_agree home ["encode", "f", "-ptrue"]
  refine ⟨hswitch _ rfl, ?_, ?_, ?_⟩
  · rcases (hselector ["selector", "f", "--json"]).1 "f" [] none rfl rfl with h | ⟨_, h⟩
    · exact h
    · have hexit : (run home ["selector", "f"]).2.exit = 0 := rfl
      rw [h.exits.1] at hexit
      contradiction
  · rcases (hencode ["encode", "--json", "f", "-p7"]).2 "f" [] ["7"] rfl rfl with h | ⟨_, h⟩
    · exact h
    · have hexit : (run home ["encode", "f", "-p7"]).2.exit = 0 := rfl
      rw [h.exits.1] at hexit
      contradiction
  · rcases (hrefused ["encode", "--json", "f", "-ptrue"]).2 "f" [] ["true"] rfl rfl with h | h
    · obtain ⟨_, _, _, _, h⟩ := h
      have hexit : (run home ["encode", "f", "-ptrue"]).2.exit = 1 := rfl
      rw [h.exits.1] at hexit
      contradiction
    · exact h

end Program

end CallData
