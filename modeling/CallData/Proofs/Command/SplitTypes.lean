/-
CallData/Proofs/Command/SplitTypes.lean

Parameter types in a signature and apart from it.

A function may be named together with some of its types, between parentheses and with commas between
them, while the others are given one by one.  The text is cut into the types that stand in it, so
either way all types are read in their order, and the first text that names none ends the reading.

Main result: how the types are split does not matter (`function_split`).
-/
import CallData.Proofs.Command.Arguments
import CallData.Proofs.Signature.Grammar

namespace CallData

open Abi

/-- The function of a name that may have blanks around it, without parameters. -/
def trimmedFunction (name : String) : Signature := .ofName (String.ofList (Text.trim name.toList))

variable {name : String} {inner outer types : List String}

/-! ### One type after the other -/

namespace Signature

/-- Types that are cut out of an argument list are added one after the other. -/
theorem ofParts_eq_addTypes {nameChars args : List Char}
    (hname : Text.isBlankText nameChars = false)
    (hargs : typeNames args = types.map String.toList) :
    ofParts nameChars args =
      (addTypes types).result (ofName (String.ofList (Text.trim nameChars))) := by
  have hread : (typeNames args).mapM ParamType.ofChars = types.mapM ParamType.parse := by
    rw [hargs, List.mapM_map]
    rfl
  rw [ofParts, hname, hread, result_addTypes]
  rfl

/-- So are those of a function that is named by its text. -/
theorem parse_signatureText (hname : '(' ∉ name.toList)
    (hblank : Text.isBlankText name.toList = false) (hcommas : ∀ t ∈ types, ',' ∉ t.toList)
    (hone : ∀ t, types = [t] → Text.isBlankText t.toList = false) :
    parse (signatureText name types) = (addTypes types).result (trimmedFunction name) := by
  have htext : (signatureText name types).toList =
      name.toList ++ '(' :: [','].intercalate (types.map String.toList) ++ [')'] := by
    simp [signatureText, String.toList_intercalate]
  have hargs : typeNames ([','].intercalate (types.map String.toList)) =
      types.map String.toList := by
    refine typeNames_intercalate (List.forall_mem_map.mpr hcommas) fun piece hpiece => ?_
    obtain ⟨t, rfl, rfl⟩ := List.map_eq_singleton_iff.mp hpiece
    exact hone t rfl
  rw [parse_closed hname htext, ofParts_eq_addTypes _ hargs, Text.trim_dropWhile]
  · rfl
  · rw [Text.isBlankText_dropWhile, hblank]

end Signature

/-! ### Functions of a command -/

namespace Command

variable {α β : Type} {sig : Signature} {e : Error}

theorem ofCall_eq_error_iff {x : Except CallError α} :
    ofCall x = .error e ↔ ∃ cause, x = .error cause ∧ e = .call cause := by
  cases x <;> simp [ofCall, eq_comm]

theorem ofCall_bind (x : Except CallError α) (f : α → Except CallError β) :
    ofCall (x >>= f) = ofCall x >>= fun a => ofCall (f a) := by
  cases x <;> rfl

theorem function_of_name (hname : '(' ∉ name.toList)
    (hblank : Text.isBlankText name.toList = false) (types : List String) :
    function name types = ofCall ((Signature.addTypes types).result (trimmedFunction name)) := by
  have hparen : ¬ name.toList.contains '(' = true := by simpa using hname
  rw [function, namedFunction, if_neg hparen, if_neg (by simp [hblank])]
  rfl

theorem function_signatureText (hname : '(' ∉ name.toList)
    (hblank : Text.isBlankText name.toList = false) (hcommas : ∀ t ∈ inner, ',' ∉ t.toList)
    (hone : ∀ t, inner = [t] → Text.isBlankText t.toList = false) (outer : List String) :
    function (signatureText name inner) outer = function name (inner ++ outer) := by
  have hparen : (signatureText name inner).toList.contains '(' = true := by
    simp [signatureText]
  rw [function_of_name hname hblank, Signature.result_addTypes_append, ofCall_bind, function,
    namedFunction, if_pos hparen, Signature.parse_signatureText hname hblank hcommas hone]

/-- A function has the types that the texts name, in their order. -/
theorem function_eq_ok_iff (hname : '(' ∉ name.toList)
    (hblank : Text.isBlankText name.toList = false) : function name types = .ok sig ↔
      sig.name = String.ofList (Text.trim name.toList) ∧
        List.Forall₂ (fun t ty => ParamType.IsNamedBy ty t.toList) types sig.types := by
  obtain ⟨sigName, sigTypes⟩ := sig
  rw [function_of_name hname hblank, ofCall_eq_ok_iff, Signature.result_addTypes, bind_eq_ok_iff]
  simp only [mapM_eq_ok_iff, ParamType.parse, ParamType.ofChars_eq_ok_iff_isNamedBy]
  constructor
  · rintro ⟨types', htypes, h⟩
    obtain ⟨rfl, rfl⟩ := Signature.mk.inj (Except.ok.inj h)
    exact ⟨rfl, htypes⟩
  · rintro ⟨rfl, htypes⟩
    exact ⟨sigTypes, htypes, rfl⟩

/-- The first text that names no type is what a function fails with. -/
theorem function_eq_error_iff (hname : '(' ∉ name.toList)
    (hblank : Text.isBlankText name.toList = false) : function name types = .error e ↔
      ∃ before t after, types = before ++ t :: after ∧
        (∀ known ∈ before, ∃ ty, ParamType.IsNamedBy ty known.toList) ∧
        (¬ ∃ ty, ParamType.IsNamedBy ty t.toList) ∧
        e = .call (.invalidTypeName (String.ofList (Text.trim t.toList))) := by
  rw [function_of_name hname hblank, ofCall_eq_error_iff, Signature.result_addTypes]
  simp only [bind_eq_error_iff, mapM_eq_error_iff, ParamType.parse,
    ParamType.ofChars_eq_ok_iff_isNamedBy, ParamType.ofChars_eq_error_iff]
  constructor
  · rintro ⟨cause, ⟨before, t, after, rfl, hbefore, ht, rfl⟩ | ⟨_, -, h⟩, rfl⟩
    · exact ⟨before, t, after, rfl, hbefore, ht, rfl⟩
    · contradiction
  · rintro ⟨before, t, after, rfl, hbefore, ht, rfl⟩
    exact ⟨_, .inl ⟨before, t, after, rfl, hbefore, ht, rfl⟩, rfl⟩

/-! ### Main result -/

/-- **How the types are split does not matter.**  The function of a text with some types in it and
the others behind it is that of the bare name with all types behind it: it has the types that the
texts name, or fails with the first one that names none.  So the commands that describe a function
and encode a call report the same for both, signature and selector included. -/
theorem function_split (hname : '(' ∉ name.toList) (hblank : Text.isBlankText name.toList = false)
    (hcommas : ∀ t ∈ inner, ',' ∉ t.toList)
    (hone : ∀ t, inner = [t] → Text.isBlankText t.toList = false) (outer : List String) :
    function (signatureText name inner) outer = function name (inner ++ outer) ∧
    (∀ sig, function name (inner ++ outer) = .ok sig ↔
      sig.name = String.ofList (Text.trim name.toList) ∧
        List.Forall₂ (fun t ty => ParamType.IsNamedBy ty t.toList) (inner ++ outer) sig.types) ∧
    (∀ e, function name (inner ++ outer) = .error e ↔
      ∃ before t after, inner ++ outer = before ++ t :: after ∧
        (∀ known ∈ before, ∃ ty, ParamType.IsNamedBy ty known.toList) ∧
        (¬ ∃ ty, ParamType.IsNamedBy ty t.toList) ∧
        e = .call (.invalidTypeName (String.ofList (Text.trim t.toList)))) ∧
    ∀ settings : Settings,
      (∀ expected, describe settings (signatureText name inner) outer expected =
        describe settings name (inner ++ outer) expected) ∧
      ∀ values, encode settings (signatureText name inner) outer values =
        encode settings name (inner ++ outer) values := by
  have hsplit := function_signatureText hname hblank hcommas hone outer
  refine ⟨hsplit, fun sig => function_eq_ok_iff hname hblank,
    fun e => function_eq_error_iff hname hblank, fun settings => ⟨?_, ?_⟩⟩
  · intro expected
    rw [describe, hsplit]
    rfl
  · intro values
    rw [encode, hsplit]
    rfl

/-- Blanks do not count around the name and the types, and a parenthesis in a type does not end the
list: of the two texts that name no type, the first one counts. -/
theorem function_split_sample :
    function " f (uint ,))" ["number"] = function " f " ["uint ", ")", "number"] ∧
    function " f (uint ,))" ["number"] = .error (.call (.invalidTypeName ")")) := by
  have htext : signatureText " f " ["uint ", ")"] = " f (uint ,))" := by decide
  obtain ⟨hsplit, -, herror, -⟩ :
      function (signatureText " f " ["uint ", ")"]) ["number"] =
        function " f " (["uint ", ")"] ++ ["number"]) ∧ _ :=
    function_split (by decide) (by decide) (by decide) (by simp) ["number"]
  rw [htext] at hsplit
  refine ⟨hsplit, hsplit.trans ((herror _).mpr ⟨["uint "], ")", ["number"], rfl, ?_, ?_, ?_⟩)⟩
  · intro known hknown
    obtain rfl := List.mem_singleton.mp hknown
    exact ⟨.uint .w256, ParamType.ofChars_eq_ok_iff_isNamedBy.mp (by decide)⟩
  · have hrefused : ParamType.ofChars ")".toList = .error (.invalidTypeName ")") := by decide
    exact (ParamType.ofChars_eq_error_iff.mp hrefused).1
  · decide

end Command

end CallData
