/-
CallData/Proofs/Command/Arguments.lean

What the arguments of a command stand for.

The name in the function that a text and type names describe has been trimmed, so it is plain
(`isPlainName_of_function`), and the signature of such a function describes it again
(`function_render`).  The parameter texts are read and added one by one, which succeeds when all
of them can be read and all their values added (`addValues_eq_ok_iff`).
-/
import CallData.Command.Describe
import CallData.Proofs.Call.Agreement
import CallData.Proofs.Signature.RoundTrip

namespace CallData

open Abi

namespace Command

variable {sig : Signature} {call last : Call} {text : String} {typeNames raws : List String}

theorem ofCall_eq_ok_iff {α : Type} {x : Except CallError α} {a : α} :
    ofCall x = .ok a ↔ x = .ok a := by
  cases x <;> simp [ofCall]

/-! ### Functions -/

/-- The function of a command has a plain name, whether it is given alone or in a signature. -/
theorem isPlainName_of_namedFunction (h : namedFunction text = .ok sig) :
    Signature.IsPlainName sig.name := by
  rw [namedFunction] at h
  split at h
  · exact Signature.isPlainName_of_parse (ofCall_eq_ok_iff.mp h)
  · rename_i hparen
    split at h
    · cases h
    · rename_i hblank
      obtain rfl := Except.ok.inj h
      exact Signature.isPlainName_trim (by simpa using hparen) (by simpa using hblank)

theorem isPlainName_of_function (h : function text typeNames = .ok sig) :
    Signature.IsPlainName sig.name := by
  obtain ⟨base, hbase, h⟩ := bind_eq_ok_iff.mp h
  rw [Signature.name_of_addTypes (ofCall_eq_ok_iff.mp h)]
  exact isPlainName_of_namedFunction hbase

/-- A signature with a plain name describes itself. -/
theorem function_render (h : Signature.IsPlainName sig.name) :
    function sig.render [] = .ok sig := by
  have hparen : sig.render.toList.contains '(' = true := by
    rw [Signature.render, String.toList_ofList, Signature.chars_eq]
    simp
  rw [function, namedFunction, if_pos hparen, Signature.parse_render_of_isPlainName h]
  rfl

/-! ### Values -/

/-- Values are read and added one by one; all of it succeeds if all can be read and added. -/
theorem addValues_eq_ok_iff : addValues call raws = .ok last ↔
    ∃ vs, raws.mapM value = .ok vs ∧ call.addAll vs = .ok last := by
  induction raws generalizing call with
  | nil =>
    constructor
    · intro h
      obtain rfl : call = last := Except.ok.inj h
      exact ⟨[], rfl, rfl⟩
    · rintro ⟨vs, hvs, h⟩
      obtain rfl : [] = vs := Except.ok.inj hvs
      obtain rfl : call = last := Except.ok.inj h
      rfl
  | cons raw rest ih =>
    constructor
    · intro h
      obtain ⟨v, hv, h⟩ := bind_eq_ok_iff.mp h
      obtain ⟨next, hadd, h⟩ := bind_eq_ok_iff.mp h
      obtain ⟨vs, hvs, hrest⟩ := ih.mp h
      exact ⟨v :: vs, mapM_cons_eq_ok_iff.mpr ⟨v, vs, hv, hvs, rfl⟩,
        Call.addAll_cons_eq_ok_iff.mpr ⟨next, ofCall_eq_ok_iff.mp hadd, hrest⟩⟩
    · rintro ⟨all, hall, h⟩
      obtain ⟨v, vs, hv, hvs, rfl⟩ := mapM_cons_eq_ok_iff.mp hall
      obtain ⟨next, hadd, hrest⟩ := Call.addAll_cons_eq_ok_iff.mp h
      exact bind_eq_ok_iff.mpr ⟨v, hv,
        bind_eq_ok_iff.mpr ⟨next, ofCall_eq_ok_iff.mpr hadd, ih.mpr ⟨vs, hvs, hrest⟩⟩⟩

end Command

end CallData
