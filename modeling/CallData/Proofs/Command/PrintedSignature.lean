/-
CallData/Proofs/Command/PrintedSignature.lean

The signature that a command prints can be given in place of the function.

The printed signature is read back as the function that it describes (`function_render`).
Encoding with it declares the types that the first run showed, if need be those of its values,
and takes the same values again (`Call.addAll_signature`).

Main result: the printed signature is a fixed point of encoding, and describing it gives the
selector that encoding printed; that selector is accepted as the expected one, with and without
its mark (`encode_signature_fixed`).
-/
import CallData.Proofs.Command.Arguments
import CallData.Proofs.Report
import CallData.Proofs.Selector

namespace CallData.Command

open Abi

variable {sig : Signature} {settings : Settings} {text : String}
variable {typeNames raws : List String} {data : Bytes} {report : Report}

/-! ### Reports -/

/-- The report has this signature and this selector in its fields. -/
def Shows (report : Report) (signature selector : String) : Prop :=
  report.get? "signature" = some (.text signature) ∧
    report.get? "selector" = some (.text selector)

/-- The call data of a function are reported with its signature and selector. -/
def dataReport (settings : Settings) (sig : Signature) (data : Bytes) : Report :=
  Report.empty
    |>.text "signature" sig.render
    |>.text "selector" (settings.hexText (data.take 4))
    |>.text "data" (settings.hexText data)
    |>.count "length" (UInt64.ofNat data.length)
    |>.say (settings.dataText data)

theorem shows_dataReport (sel : Selector) (params : List Param) :
    Shows (dataReport settings sig (Call.dataOf sel params)) sig.render
      (settings.hexText sel.bytes) := by
  constructor
  · simp [dataReport]
  · simp [dataReport, Call.take_dataOf]

/-- What encoding succeeds with: a function, values that it takes, and the call data. -/
theorem encode_eq_ok_iff : encode settings text typeNames raws = .ok report ↔
    ∃ sig vs call data, function text typeNames = .ok sig ∧ raws.mapM value = .ok vs ∧
      (Call.ofSignature sig).addAll vs = .ok call ∧ call.encode = .ok data ∧
      report = dataReport settings ⟨sig.name, call.types⟩ data := by
  constructor
  · intro h
    obtain ⟨sig, hsig, h⟩ := bind_eq_ok_iff.mp h
    obtain ⟨call, hcall, h⟩ := bind_eq_ok_iff.mp h
    obtain ⟨vs, hvs, hadd⟩ := addValues_eq_ok_iff.mp hcall
    obtain ⟨data, hdata, h⟩ := bind_eq_ok_iff.mp h
    obtain ⟨shown, hshown, h⟩ := bind_eq_ok_iff.mp h
    obtain rfl : (⟨sig.name, call.types⟩ : Signature) = shown := by
      have hsigned := ofCall_eq_ok_iff.mp hshown
      rw [Call.signature_of_named (Call.name_of_addAll hadd)] at hsigned
      exact Except.ok.inj hsigned
    exact ⟨sig, vs, call, data, hsig, hvs, hadd, ofCall_eq_ok_iff.mp hdata,
      (Except.ok.inj h).symm⟩
  · rintro ⟨sig, vs, call, data, hsig, hvs, hadd, hdata, rfl⟩
    rw [encode, hsig, ok_bind, addValues_eq_ok_iff.mpr ⟨vs, hvs, hadd⟩, ok_bind, hdata,
      Call.signature_of_named (Call.name_of_addAll hadd)]
    rfl

/-- Call data begin with the selector of the signature that the call shows. -/
theorem eq_dataOf_of_encode {call : Call} {name : String} (hname : call.name = some name)
    (h : call.encode = .ok data) :
    data = Call.dataOf (⟨name, call.types⟩ : Signature).selector call.params := by
  obtain ⟨-, name', hname', hdata⟩ := Call.encodeWith_eq_ok_iff.mp h
  obtain rfl : name = name' := Option.some.inj (hname.symm.trans hname')
  rw [hdata]
  rfl

/-- The report says, for programs and for people, that a function has this signature and this
selector. -/
structure Describes (report : Report) (signature selector : String) : Prop where
  shows : Shows report signature selector
  message : report.message = some (selector ++ "  " ++ signature)

/-- A function is reported with its signature and its selector, and with the fact that the selector
is the expected one if there is one. -/
def selectorReport (settings : Settings) (sig : Signature) (wasExpected : Bool) : Report :=
  let hex := settings.hexText sig.selector.bytes
  let report := Report.empty
    |>.text "signature" sig.render
    |>.text "selector" hex
    |>.say (hex ++ "  " ++ sig.render)
  if wasExpected then report.flag "matches" true else report

theorem checkExpected_eq_ok_iff {expected : Option Selector} {computed : Selector} :
    checkExpected expected computed = .ok () ↔ expected = none ∨ expected = some computed := by
  rcases expected with _ | sel
  · simp [checkExpected]
  · simp [checkExpected]

/-- What describing succeeds with: a function that has the expected selector if there is one. -/
theorem describe_eq_ok_iff {expected : Option Selector} :
    describe settings text typeNames expected = .ok report ↔
      ∃ sig, function text typeNames = .ok sig ∧
        (expected = none ∨ expected = some sig.selector) ∧
        report = selectorReport settings sig expected.isSome := by
  constructor
  · intro h
    obtain ⟨sig, hsig, h⟩ := bind_eq_ok_iff.mp h
    obtain ⟨⟨⟩, hcheck, h⟩ := bind_eq_ok_iff.mp h
    exact ⟨sig, hsig, checkExpected_eq_ok_iff.mp hcheck, (Except.ok.inj h).symm⟩
  · rintro ⟨sig, hsig, hexpected, rfl⟩
    rw [describe, hsig, ok_bind, checkExpected_eq_ok_iff.mpr hexpected, ok_bind]
    rfl

/-- A function is described by its signature and its selector; asking for that selector changes
neither. -/
theorem describe_of_function {expected : Option Selector} (h : function text typeNames = .ok sig)
    (hexpected : expected = none ∨ expected = some sig.selector) :
    ∃ report, describe settings text typeNames expected = .ok report ∧
      Describes report sig.render (settings.hexText sig.selector.bytes) := by
  refine ⟨_, describe_eq_ok_iff.mpr ⟨sig, h, hexpected, rfl⟩, ?_⟩
  rcases hexpected with rfl | rfl
  · exact ⟨⟨by simp [selectorReport], by simp [selectorReport]⟩, rfl⟩
  · exact ⟨⟨by simp [selectorReport], by simp [selectorReport]⟩, rfl⟩

/-! ### The fixed point -/

/-- **The printed signature is a fixed point.**  Given in place of the function and its types, the
signature that encoding reports leads to the same report; it is described by the selector that
encoding reports, which is accepted as the expected one with and without its mark.  A function
that declares types is described by them already before. -/
theorem encode_signature_fixed (settings : Settings) (text : String) (typeNames raws : List String)
    (report : Report) (h : encode settings text typeNames raws = .ok report) :
    ∃ signature selector, Shows report signature selector ∧
      encode settings signature [] raws = .ok report ∧
      (∃ r, describe settings signature [] none = .ok r ∧ Describes r signature selector) ∧
      (∃ digits, (selector = digits ∨ selector = "0x" ++ digits) ∧
        ∀ expect, expect = digits ∨ expect = "0x" ++ digits →
          ∃ sel r, Selector.ofHex expect = .ok sel ∧
            describe settings signature [] (some sel) = .ok r ∧ Describes r signature selector) ∧
      (∀ sig, function text typeNames = .ok sig → sig.types ≠ [] →
        ∃ r, describe settings text typeNames none = .ok r ∧ Describes r signature selector) := by
  obtain ⟨sig, vs, call, data, hsig, hvs, hadd, hdata, rfl⟩ := encode_eq_ok_iff.mp h
  have hname : call.name = some sig.name := Call.name_of_addAll hadd
  obtain ⟨shown, hshown⟩ : ∃ shown : Signature, shown = ⟨sig.name, call.types⟩ := ⟨_, rfl⟩
  have hplain : Signature.IsPlainName sig.name := isPlainName_of_function hsig
  have hfunction : function shown.render [] = .ok shown :=
    function_render (by rwa [hshown])
  have hselector : data = Call.dataOf shown.selector call.params := by
    rw [hshown]
    exact eq_dataOf_of_encode hname hdata
  rw [← hshown]
  refine ⟨shown.render, settings.hexText shown.selector.bytes, ?_, ?_, ?_, ?_, ?_⟩
  · rw [hselector]
    exact shows_dataReport _ _
  -- the second run declares what the first one showed, and takes the same values
  · refine encode_eq_ok_iff.mpr ⟨shown, vs, call.declareTypes, data, hfunction, hvs, ?_, ?_, ?_⟩
    · rw [hshown]
      exact Call.addAll_signature hadd
    · rw [Call.encode, Call.encodeWith_declareTypes]
      exact hdata
    · rw [Call.types_declareTypes, hshown]
  · exact describe_of_function hfunction (.inl rfl)
  -- the reported selector is its digits, marked or not, and both are read as the selector
  · refine ⟨Hex.encode shown.selector.bytes, settings.hexText_eq _, ?_⟩
    intro expect hexpect
    obtain ⟨r, hr, hdescribes⟩ := describe_of_function hfunction (.inr rfl)
    exact ⟨shown.selector, r, Selector.ofHex_of_digits hexpect, hr, hdescribes⟩
  -- declared types are the ones that are shown
  · intro sig' hsig' htypes
    obtain rfl : sig = sig' := Except.ok.inj (hsig.symm.trans hsig')
    have hdeclared : call.declared = sig.types := Call.declared_of_addAll hadd
    have hsame : shown = sig := by
      rw [hshown, Call.types_of_declared (hdeclared ▸ htypes), hdeclared]
    rw [hsame]
    exact describe_of_function hsig (.inl rfl)

/-- The call that two values make of a function without declared types. -/
def storeCall : Call :=
  ⟨some "store", [], [⟨.array .string, .texts []⟩, ⟨.uint .w256, .uint .w256 7⟩]⟩

/-- A name with blanks around it and two values give a signature with both types, which leads to
the same report and is described. -/
theorem encode_signature_fixed_sample :
    ∃ report r selector, encode .standard " store " [] ["[]", "7"] = .ok report ∧
      encode .standard "store(string[],uint256)" [] ["[]", "7"] = .ok report ∧
      describe .standard "store(string[],uint256)" [] none = .ok r ∧
      Describes r "store(string[],uint256)" selector := by
  have hdata : storeCall.encode = .ok _ :=
    Call.encodeWith_of_named (Call.not_mismatched_of_undeclared rfl) rfl
  have hreport : encode .standard " store " [] ["[]", "7"] = .ok _ :=
    encode_eq_ok_iff.mpr ⟨⟨"store", []⟩, [.texts [], .ofWord 7], storeCall, _, rfl, rfl, rfl,
      hdata, rfl⟩
  obtain ⟨signature, selector, hshows, hagain, ⟨r, hr, hdescribes⟩, -⟩ :=
    encode_signature_fixed .standard " store " [] ["[]", "7"] _ hreport
  -- the signature that the report shows
  have hsignature : signature = "store(string[],uint256)" := by
    have hboth := hshows.1.symm.trans (shows_dataReport _ _).1
    rw [Json.Scalar.text.inj (Option.some.inj hboth)]
    decide +kernel
  rw [hsignature] at hagain hr hdescribes
  exact ⟨_, r, selector, hreport, hagain, hr, hdescribes⟩

end CallData.Command
