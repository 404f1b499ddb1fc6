/-
CallData/Proofs/Signature/Building.lean

Signatures under construction.

Adding a type reads its name first, so a name that is none leaves the signature as it was
(`leavesAlone_addType`).  Adding several types does not: what stands before the name that is none
stays.  Where the signature is given up then, only the names count, and all of it succeeds if each
of them can be read (`result_addTypes`).
-/
import CallData.Proofs.Results
import CallData.Signature.Step

namespace CallData

open Abi

/-! ### Texts -/

/-- The text of a function with these type names. -/
def signatureText (name : String) (typeNames : List String) : String :=
  name ++ "(" ++ ",".intercalate typeNames ++ ")"

namespace Signature

variable {sig extended : Signature} {typeName : String} {typeNames : List String} {ty : ParamType}
variable {reason : CallError}

/-- The text of a signature: the name, and the type names between parentheses. -/
theorem render_eq (sig : Signature) :
    sig.render = signatureText sig.name (sig.types.map ParamType.name) := by
  rw [render, chars, signatureText, ← String.toList_inj]
  simp only [String.toList_ofList, String.toList_append, String.toList_intercalate, List.map_map]
  simp [Function.comp_def]

/-! ### One type -/

theorem run_addType_of_ok (h : ParamType.parse typeName = .ok ty) (sig : Signature) :
    (addType typeName).run sig = .ok () (sig.push ty) := by
  simp [addType, h]

/-- A name that is none is refused before anything has changed. -/
theorem run_addType_of_error (h : ParamType.parse typeName = .error reason) (sig : Signature) :
    (addType typeName).run sig = .error reason sig := by
  simp [addType, h]

theorem leavesAlone_addType (typeName : String) : (addType typeName).LeavesAlone := by
  intro sig reason rest h
  rcases hparse : ParamType.parse typeName with reason' | ty
  · rw [run_addType_of_error hparse] at h
    exact (EStateM.Result.error.inj h).2.symm
  · rw [run_addType_of_ok hparse] at h
    contradiction

/-- A step that fails leaves the signature as it was. -/
theorem Step.leavesAlone_apply (step : Step) : step.apply.LeavesAlone := by
  cases step with
  | addType typeName => exact leavesAlone_addType typeName
  | push type =>
    intro sig reason rest h
    contradiction

/-! ### Several types -/

/-- Types are added up to the name that is none, and stay. -/
theorem after_addTypes {inner : List String} {types : List ParamType}
    (hinner : inner.mapM ParamType.parse = .ok types)
    (h : ParamType.parse typeName = .error reason) (sig : Signature) (outer : List String) :
    (addTypes (inner ++ typeName :: outer)).after sig = ⟨sig.name, sig.types ++ types⟩ := by
  induction inner generalizing sig types with
  | nil =>
    obtain rfl : [] = types := Except.ok.inj hinner
    rw [List.nil_append, addTypes, List.append_nil]
    exact Operation.after_of_error (Operation.run_seq_of_error (run_addType_of_error h sig))
  | cons first rest ih =>
    obtain ⟨ty, types', hfirst, hrest, rfl⟩ := mapM_cons_eq_ok_iff.mp hinner
    rw [List.cons_append, addTypes, Operation.after,
      Operation.run_seq_of_ok (run_addType_of_ok hfirst sig)]
    have hlast := ih hrest (sig.push ty)
    rw [push, List.append_assoc] at hlast
    exact hlast

example : (addTypes ["bytes", "number"]).after (.ofName "f") = ⟨"f", [.bytes]⟩ := by decide

/-- All types can be added if each name can be read. -/
theorem result_addTypes (sig : Signature) (typeNames : List String) :
    (addTypes typeNames).result sig =
      typeNames.mapM ParamType.parse >>= fun types => .ok ⟨sig.name, sig.types ++ types⟩ := by
  induction typeNames generalizing sig with
  | nil =>
    have hnone : (addTypes []).result sig = .ok sig := rfl
    simp [hnone, pure, Except.pure]
  | cons typeName rest ih =>
    rw [addTypes, Operation.result_seq, List.mapM_cons]
    rcases hparse : ParamType.parse typeName with reason | ty
    · rw [Operation.result_of_error (run_addType_of_error hparse sig)]
      rfl
    · rw [Operation.result_of_ok (run_addType_of_ok hparse sig), ok_bind, ih]
      rcases rest.mapM ParamType.parse with reason | types
      · rfl
      · simp [push, pure, Except.pure]

theorem result_addTypes_append (sig : Signature) (inner outer : List String) :
    (addTypes (inner ++ outer)).result sig =
      (addTypes inner).result sig >>= (addTypes outer).result := by
  induction inner generalizing sig with
  | nil => rfl
  | cons typeName rest ih =>
    have hrest : (addTypes (rest ++ outer)).result =
        fun next => (addTypes rest).result next >>= (addTypes outer).result := funext ih
    rw [List.cons_append, addTypes, addTypes, Operation.result_seq, Operation.result_seq,
      bind_assoc, hrest]

theorem name_of_addTypes (h : (addTypes typeNames).result sig = .ok extended) :
    extended.name = sig.name := by
  rw [result_addTypes] at h
  obtain ⟨types, -, htypes⟩ := bind_eq_ok_iff.mp h
  rw [← Except.ok.inj htypes]

end Signature

end CallData
