/-
CallData/Proofs/Program/Expectation.lean

The selector that a function is expected to have.

What is expected is given as a text behind a switch.  Attached to the switch it is taken as it
stands, like the type names, and so is a function behind the stop mark, whatever it looks like
(`scanAfter_attached`); so every function, all types and every text that is a selector can be asked
for (`parse_expectLine`).

If the function has the expected selector it is described.  If not, the run fails with a message
that holds both selectors.  Every signature has an opening parenthesis and nothing that such a run
prints has one, so no signature is printed.

Main result: `expected_selector`.
-/
import CallData.Proofs.CommandLine.Arrangement
import CallData.Proofs.Program.Modes
import CallData.Proofs.Selector.Reading

namespace CallData

/-! ### Attached values -/

namespace CommandLine

/-- A switch with its value behind an equals sign. -/
def attached (switch : Switch) (value : String) : String := "--" ++ switch.longName ++ "=" ++ value

/-- The arguments of a run that is to describe a function and to compare its selector with the one
in the text.  The function stands behind the stop mark. -/
def expectLine (json : Bool) (function : String) (types : List String) (text : String) :
    List String :=
  (if json then ["--json"] else []) ++
    "selector" :: attached .expect text :: types.map (attached .type) ++ ["--", function]

variable {found : Found} {verb : Verb} {switch : Switch} {g : Given} {value : String}

theorem ofString_attached (switch : Switch) (value : String) :
    Argument.ofString (attached switch value) = .long switch.longName (some value) := by
  have hall : switch.longName.toList.all (· != '=') = true := by
    cases switch <;> rfl
  have hname := List.all_eq_true.mp hall
  have hchars : (attached switch value).toList =
      '-' :: '-' :: (switch.longName.toList ++ '=' :: value.toList) := by
    simp [attached]
  rw [Argument.ofString, hchars, Argument.ofChars]
  · rw [List.takeWhile_append_of_pos hname, List.dropWhile_append_of_pos hname]
    simp
  · simp

theorem attached_ne_stop (switch : Switch) (value : String) : attached switch value ≠ "--" := by
  intro h
  have hstop : Argument.ofString (attached switch value) = .stop := by
    rw [h]
    rfl
  rw [ofString_attached] at hstop
  contradiction

/-- A value that is attached to its switch is added, whatever it looks like. -/
theorem scanAfter_attached (hpending : found.pending = none)
    (hknown : (switches (some verb)).find? (·.longName == switch.longName) = some switch)
    (hvalue : switch.takesValue = true) (hfirst : found.checkFirst switch = .ok ())
    (hread : Found.read switch value = .ok g) (rest : List String) :
    scanAfter verb found (attached switch value :: rest) = scanAfter verb (found.add g) rest := by
  have hready := ready_self hpending
  have hadd : found.addValued switch (some value) = .ok (found.add g) := by
    rw [Found.addValued, hready.settle_eq, ok_bind]
    show found.accept switch value = _
    rw [Found.accept, hfirst, ok_bind, hread]
    rfl
  have htake : take (some verb) found (attached switch value) = .ok (found.add g) := by
    rw [take, hready.waiting?_eq, ofString_attached]
    show takeLong (some verb) found switch.longName (some value) = _
    unfold takeLong
    rw [hknown]
    show takeAttached found switch value = _
    rw [takeAttached, if_pos hvalue, hadd]
    rfl
  apply scanAfter_cons
  rw [step_of_ready hready (attached_ne_stop switch value), htake]
  rfl

theorem scanAfter_attachedTypes (hpending : found.pending = none) (types rest : List String) :
    scanAfter .selector found (types.map (attached .type) ++ rest) =
      scanAfter .selector { found with given := found.given ++ types.map .type } rest := by
  induction types generalizing found with
  | nil => simp
  | cons name types ih =>
    have hnext : (found.add (.type name)).pending = none := hpending
    rw [List.map_cons, List.cons_append, scanAfter_attached hpending rfl rfl rfl rfl, ih hnext]
    simp [Found.add]

/-- The function behind the stop mark is taken as it stands. -/
theorem scanAfter_stop (hpending : found.pending = none) (hfunction : found.function = none)
    (text : String) :
    scanAfter .selector found ["--", text] = .ok { found with function := some text } := by
  obtain ⟨given, function, pending⟩ := found
  obtain rfl : pending = none := hpending
  obtain rfl : function = none := hfunction
  rfl

/-- What is found in the arguments behind the command. -/
def expectFound (function : String) (types : List String) (sel : Selector) : Found :=
  ⟨.expect sel :: types.map .type, some function, none⟩

theorem scanAfter_expectLine {text : String} {sel : Selector} (h : Selector.ofHex text = .ok sel)
    (function : String) (types : List String) :
    scanAfter .selector .nothing
      (attached .expect text :: types.map (attached .type) ++ ["--", function]) =
        .ok (expectFound function types sel) := by
  have hread : Found.read .expect text = .ok (.expect sel) := by
    rw [Found.read, h]
  rw [List.cons_append, scanAfter_attached rfl rfl rfl rfl hread, scanAfter_attachedTypes rfl,
    scanAfter_stop rfl rfl]
  rfl

theorem types_expectFound (function : String) (types : List String) (sel : Selector) :
    (expectFound function types sel).types = types := by
  show (types.map Given.type).filterMap Given.type? = types
  rw [List.filterMap_map]
  exact List.filterMap_some

theorem parse_expectLine {text : String} {sel : Selector} (h : Selector.ofHex text = .ok sel)
    (json : Bool) (function : String) (types : List String) :
    parse (expectLine json function types text) =
      .ok ⟨json, .selector function types (some sel)⟩ := by
  have hpeople : parse (expectLine false function types text) =
      .ok ⟨false, .selector function types (some sel)⟩ := by
    have hjson : (expectFound function types sel).has .json = false := by
      simp [expectFound, Found.has, Given.switch]
    have hcommand : Scanned.command ⟨.nothing, .selector, expectFound function types sel⟩ =
        .selector function types (some sel) := by
      rw [Scanned.command, types_expectFound]
      rfl
    have hverb : verbOf? .nothing "selector" = some .selector := rfl
    have hparse := parse_of_scanAfter hverb (scanAfter_expectLine h function types) rfl
    rwa [hjson, hcommand] at hparse
  cases json with
  | false => exact hpeople
  | true => exact parse_cons_json hpeople

end CommandLine

/-! ### What is not printed -/

namespace Json

theorem eq_of_paren_mem_escapeChar {c : Char} (h : '(' ∈ escapeChar c) : c = '(' := by
  have hdigit {n : Nat} (hn : n < 16) : '(' ≠ Nat.digitChar n :=
    fun hparen => absurd (hparen ▸ Hex.digitChar_mem hn) (by decide)
  revert h
  fun_cases escapeChar c with
  | case8 =>
    intro h
    simp only [controlEscape, List.mem_cons, List.not_mem_nil, or_false] at h
    rcases h with h | h | h | h | h | h
    any_goals contradiction
    · exact absurd h (hdigit (by omega))
    · exact absurd h (hdigit (by omega))
  | case9 =>
    intro h
    exact (List.mem_singleton.mp h).symm
  | _ => simp

theorem paren_notMem_quote {s : String} (h : '(' ∉ s.toList) : '(' ∉ quote s := by
  intro hmem
  simp only [quote, List.cons_append, List.mem_cons, List.mem_append, List.mem_flatMap] at hmem
  rcases hmem with hmem | ⟨c, hc, hmem⟩ | hmem
  · contradiction
  · exact h (eq_of_paren_mem_escapeChar hmem ▸ hc)
  · simp at hmem

end Json

namespace Outcome

/-- The text stands somewhere in what is printed. -/
def Prints (o : Outcome) (text : String) : Prop :=
  text.toList <:+: o.out.toList ∨ text.toList <:+: o.err.toList

/-- Where the message of a failure has no parenthesis, nothing with one is printed. -/
theorem not_prints_failure {error : Command.Error} {text : String}
    (hmessage : '(' ∉ error.message.toList) (htext : '(' ∈ text.toList) (json : Bool) :
    ¬ (failure json error).Prints text := by
  have hdocument : '(' ∉ (failureDocument error).toList := by
    have hquote := Json.paren_notMem_quote hmessage
    have hfields : '(' ∉ Json.quote "error" ∧ '(' ∉ Json.quote "success" := by decide
    simp [failureDocument, Json.compactObject, Json.compactMember, Json.Scalar.chars, hquote,
      hfields]
  rintro (h | h)
  · have hout := h.subset htext
    cases json
    all_goals simp [failure, line, hdocument] at hout
  · have herr := h.subset htext
    cases json
    all_goals simp [failure, line, hmessage] at herr

end Outcome

theorem Selector.paren_notMem_toHex (sel : Selector) : '(' ∉ sel.toHex.toList := by
  intro h
  rw [toHex, Hex.encodeMarked, Hex.encode, String.toList_append, String.toList_ofList,
    String.toList_ofList, List.mem_append] at h
  rcases h with h | h
  · simp at h
  · exact absurd (Hex.mem_lowerDigits h) (by decide)

theorem Signature.paren_mem_render (sig : Signature) : '(' ∈ sig.render.toList := by
  rw [render, String.toList_ofList, chars]
  simp

/-! ### Comparison -/

namespace Program

open CommandLine (parse expectLine parse_expectLine)

variable {home : Home} {args args' types : List String} {function : String} {sig : Signature}
variable {expected : Selector}

/-- A function has been compared with the selector that it was expected to have, which it has if
that begins the digest of its signature. -/
structure TellsComparison (text json : Outcome) (settings : Settings) (expected : Selector)
    (sig : Signature) : Prop where
  equal : expected.bytes = (Keccak.hash (Text.utf8 sig.render)).bytes.take 4 →
    TellsSelector text json true (settings.hexText expected.bytes) sig.render
  different : expected.bytes ≠ (Keccak.hash (Text.utf8 sig.render)).bytes.take 4 →
    TellsFailure text json ("Invalid input: selector mismatch: expected " ++ expected.toHex ++
      ", computed " ++ sig.selector.toHex) ∧
    ¬ text.Prints sig.render ∧ ¬ json.Prints sig.render

theorem eq_selector_iff :
    expected = sig.selector ↔
      expected.bytes = (Keccak.hash (Text.utf8 sig.render)).bytes.take 4 := by
  rw [← Selector.bytes_inj, Signature.selector, Signature.selectorWith, Selector.ofDigest]

theorem describe_of_ne (hsig : Command.function function types = .ok sig)
    (h : expected ≠ sig.selector) (settings : Settings) :
    Command.describe settings function types (some expected) =
      .error (.selectorMismatch expected sig.selector) := by
  rw [Command.describe, hsig, ok_bind, Command.checkExpected, if_neg h]
  rfl

theorem not_prints_mismatch (expected computed : Selector) (sig : Signature) (json : Bool) :
    ¬ (Outcome.failure json (.selectorMismatch expected computed)).Prints sig.render := by
  refine Outcome.not_prints_failure ?_ sig.paren_mem_render json
  have hexpected := expected.paren_notMem_toHex
  have hcomputed := computed.paren_notMem_toHex
  show '(' ∉ ("Invalid input: selector mismatch: expected " ++ expected.toHex ++
    ", computed " ++ computed.toHex).toList
  simp [hexpected, hcomputed]

theorem tellsComparison (hsig : Command.function function types = .ok sig)
    (h : parse args = .ok ⟨false, .selector function types (some expected)⟩)
    (h' : parse args' = .ok ⟨true, .selector function types (some expected)⟩) :
    TellsComparison (run home args).2 (run home args').2 home.settings expected sig := by
  have hexecute := execute_selector home function types (some expected)
  rw [run_of_parse h, run_of_parse h', serve_of_report hexecute, serve_of_report hexecute]
  constructor
  case equal =>
    intro heq
    obtain rfl : expected = sig.selector := eq_selector_iff.mpr heq
    rw [Command.describe_eq_ok_iff.mpr ⟨sig, hsig, .inr rfl, rfl⟩]
    exact tellsSelector home.settings sig true
  case different =>
    intro hne
    rw [describe_of_ne hsig (mt eq_selector_iff.mp hne)]
    exact ⟨tellsFailure _, not_prints_mismatch expected sig.selector sig false,
      not_prints_mismatch expected sig.selector sig true⟩

/-! ### Main result -/

/-- **Which texts are selectors, and what expecting one does.**  A text is a selector if eight
digits of either case remain of it without its mark, namely the one that they spell; every other
text is refused for one cause, and a selector is read back from its own text.  Any text that is a
selector can be expected of any function.  Describing the function then succeeds if its selector is
that one, and otherwise fails without printing the signature. -/
theorem expected_selector (text : String) :
    ((∃ sel, Selector.ofHex text = .ok sel) ↔ (Selector.unmarkedText text).length = 8 ∧
      ∀ c ∈ (Selector.unmarkedText text).toList, ∃ n, Hex.IsDigit c n) ∧
    (∀ sel, Selector.ofHex text = .ok sel ↔
      Hex.Spells (Selector.unmarkedText text).toList sel.bytes) ∧
    (∀ e, Selector.ofHex text = .error e ↔
      Selector.IsRefused (Text.utf8 (Selector.unmarkedText text)) e) ∧
    (∀ sel : Selector, Selector.ofHex sel.toHex = .ok sel) ∧
    ∀ (function : String) (types : List String) (sig : Signature) (expected : Selector),
      Command.function function types = .ok sig → Selector.ofHex text = .ok expected →
        (∀ json, parse (expectLine json function types text) =
          .ok ⟨json, .selector function types (some expected)⟩) ∧
        ∀ home args args', parse args = .ok ⟨false, .selector function types (some expected)⟩ →
          parse args' = .ok ⟨true, .selector function types (some expected)⟩ →
          TellsComparison (run home args).2 (run home args').2 home.settings expected sig := by
  refine ⟨Selector.exists_ofHex_iff, fun _ => Selector.ofHex_eq_ok_iff,
    fun _ => Selector.ofHex_eq_error_iff, Selector.ofHex_toHex, ?_⟩
  intro function types sig expected hsig hexpected
  exact ⟨fun json => parse_expectLine hexpected json function types,
    fun home args args' h h' => tellsComparison hsig h h'⟩

/-- The selector of `f()` is expected without a mark and in upper case, and then another selector.
-/
theorem expected_selector_sample :
    let home := Home.usable none
    TellsSelector (run home (expectLine false "f" [] "26121FF0")).2
      (run home (expectLine true "f" [] "26121FF0")).2 true "0x26121ff0" "f()" ∧
    (run home (expectLine false "f" [] "0x26121ff1")).2.exit = 1 ∧
    ¬ (run home (expectLine false "f" [] "0x26121ff1")).2.Prints "f()" := by
  intro home
  have hsig : Command.function "f" [] = .ok ⟨"f", []⟩ := rfl
  have hdigest : (Keccak.hash (Text.utf8 (Signature.mk "f" []).render)).bytes.take 4 =
      [0x26, 0x12, 0x1f, 0xf0] := by decide +kernel
  have hread : Selector.ofHex "26121FF0" = .ok ⟨[0x26, 0x12, 0x1f, 0xf0], rfl⟩ := rfl
  have hread' : Selector.ofHex "0x26121ff1" = .ok ⟨[0x26, 0x12, 0x1f, 0xf1], rfl⟩ := rfl
  obtain ⟨-, -, -, -, hexpect⟩ := expected_selector "26121FF0"
  obtain ⟨-, -, -, -, hexpect'⟩ := expected_selector "0x26121ff1"
  obtain ⟨hparse, hcompare⟩ := hexpect "f" [] _ _ hsig hread
  obtain ⟨hparse', hcompare'⟩ := hexpect' "f" [] _ _ hsig hread'
  have hequal := (hcompare home _ _ (hparse false) (hparse true)).equal hdigest.symm
  have hne : [0x26, 0x12, 0x1f, 0xf1] ≠
      (Keccak.hash (Text.utf8 (Signature.mk "f" []).render)).bytes.take 4 := by
    rw [hdigest]
    decide
  have hdifferent := (hcompare' home _ _ (hparse' false) (hparse' true)).different hne
  exact ⟨hequal, hdifferent.1.exits.1, hdifferent.2.1⟩

end Program

end CallData
