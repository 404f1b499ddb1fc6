/-
CallData/Proofs/Command/ParameterText.lean

What can be given by a parameter text.

A text that is a JSON document stands for the document's value, and every other text for itself.
Either way an integer counts as 256 bits wide, a byte string has at least one byte, since the
empty array is a list of texts, and no list of byte strings comes about.  Every value within
these limits has a text, written in digits, quotes and brackets (`exists_value_eq_ok_iff`).

Main result: under a declared type the texts give every parameter of the type, except that they
give only the empty list of byte strings; without one they give what the values themselves are
(`params_given_by_text`).
-/
import CallData.Proofs.Abi.Binding
import CallData.Proofs.Abi.Documents
import CallData.Proofs.Command.Arguments
import CallData.Proofs.Json.ReadBack

namespace CallData

namespace Abi

variable {v : Value} {p : Param} {document : Json}

/-! ### Values of documents -/

namespace Value

/-- The value can be given by a document. -/
def HasDocument : Value → Prop
  | uint width _ => width = .w256
  | bytes data => data ≠ []
  | text _ => True
  | texts _ => True
  | blobs _ => False

/-- The empty array is a list of texts, so bytes come from items. -/
theorem hasDocument_of_standsFor (h : document.StandsFor v) : v.HasDocument := by
  cases h with
  | text | texts => trivial
  | number => rfl
  | bytes hne hitems =>
    rintro rfl
    exact hne (List.forall₂_nil_right_iff.mp hitems)

theorem standsFor_bytes {data : Bytes} (h : data ≠ []) :
    (Json.array (data.map fun b => .number (.ofNat b.toNat))).StandsFor (bytes data) := by
  refine .bytes (by simpa using h) ?_
  rw [List.forall₂_map_left_iff, List.forall₂_same]
  exact fun b _ => .mk (Json.Number.spells_ofNat b.toNat)

end Value

/-! ### Parameters of values -/

/-- A value that a document gives belongs to a type. -/
theorem Param.exists_infer (h : v.HasDocument) : ∃ p, infer v = .ok p := by
  have hty : ∃ ty : ParamType, ty.Holds v := by
    cases v with
    | uint width x =>
      obtain rfl : width = .w256 := h
      exact ⟨.uint .w256, rfl, x.isLt⟩
    | bytes data => exact ⟨.bytes, trivial⟩
    | text content => exact ⟨.string, trivial⟩
    | texts items => exact ⟨.array .string, trivial⟩
    | blobs items => exact h.elim
  obtain ⟨ty, hty⟩ := hty
  exact ⟨⟨ty, v⟩, infer_eq_ok_iff.mpr ⟨rfl, Value.inferType_eq_ok_iff.mpr hty⟩⟩

/-- Every value of a type but a list of byte strings is the form that a document's value takes
under the type. -/
theorem ParamType.exists_accept {ty : ParamType} (h : ty.Holds v) (hty : ty ≠ .array .bytes) :
    ∃ given : Value, given.HasDocument ∧ ty.accept given = .ok v := by
  cases admits_of_holds h with
  | @number _ _ x _ hx => exact ⟨.uint .w256 x, rfl, accept_of_admits (.number x.isLt hx)⟩
  | @bytes data =>
    -- no item makes bytes, so the empty byte string is given by the empty list of texts
    by_cases hdata : data = []
    · rw [hdata]
      exact ⟨.texts [], trivial, accept_of_admits .noBytes⟩
    · exact ⟨.bytes data, hdata, accept_of_admits .bytes⟩
  | @text content => exact ⟨.text content, trivial, accept_of_admits .text⟩
  | @texts items => exact ⟨.texts items, trivial, accept_of_admits .texts⟩
  | blobs => exact absurd rfl hty

/-- A document gives lists of byte strings only by the empty array. -/
theorem ParamType.eq_nil_of_accept {given : Value} (hgiven : given.HasDocument)
    (h : (ParamType.array .bytes).accept given = .ok v) : v = .blobs [] := by
  cases accept_eq_ok_iff.mp h with
  | blobs => exact hgiven.elim
  | noBlobs => rfl

/-- The types whose parameters are given by documents as they stand. -/
theorem Param.hasDocument_iff (h : p.WellTyped) :
    p.value.HasDocument ↔
      p.type = .uint .w256 ∨ p.type = .string ∨ p.type = .array .string ∨
        p.type = .bytes ∧ p.value ≠ .bytes [] := by
  obtain ⟨type, value⟩ := p
  cases value with
  | uint width x =>
    obtain rfl := ParamType.eq_uint_of_holds h
    simp [Value.HasDocument]
  | bytes data | text content | texts items | blobs items =>
    rcases type with _ | _ | _ | (_ | _) <;>
      simp_all [Param.WellTyped, ParamType.Holds, Value.HasDocument]

end Abi

namespace Command

open Abi

variable {v : Value} {p : Param} {declared : Option ParamType} {raw : String}

/-! ### Values of texts -/

theorem hasDocument_of_value (h : value raw = .ok v) : v.HasDocument := by
  rw [value] at h
  split at h
  · exact Value.hasDocument_of_standsFor (Json.ofJson_eq_ok_iff.mp (ofCall_eq_ok_iff.mp h))
  · obtain rfl := Except.ok.inj h
    trivial

/-- The text of a document stands for the document's value. -/
theorem value_of_isReadAs {text : List Char} {document : Json}
    (htext : Json.IsReadAs Json.maxDepth text document) (h : document.StandsFor v) :
    value (String.ofList text) = .ok v := by
  rw [value, Json.parse?_of_isReadAs htext]
  exact ofCall_eq_ok_iff.mpr (Json.ofJson_eq_ok_iff.mpr h)

/-- The values that texts stand for. -/
theorem exists_value_eq_ok_iff : (∃ raw, value raw = .ok v) ↔ v.HasDocument := by
  constructor
  · rintro ⟨raw, h⟩
    exact hasDocument_of_value h
  · intro h
    cases v with
    | uint width x =>
      obtain rfl : width = .w256 := h
      exact ⟨_, value_of_isReadAs (Json.isReadAs_toDigits x.toNat)
        (.number (Json.Number.spells_ofNat x.toNat))⟩
    | bytes data =>
      exact ⟨_, value_of_isReadAs
        (Json.isReadAs_bracketed fun b _ => Json.isReadAs_toDigits b.toNat)
        (Value.standsFor_bytes h)⟩
    | text content => exact ⟨_, value_of_isReadAs (Json.isReadAs_quote content) .text⟩
    | texts items =>
      exact ⟨_, value_of_isReadAs
        (Json.isReadAs_bracketed fun s _ => Json.isReadAs_quote s) .texts⟩
    | blobs items => exact h.elim

/-! ### Parameters of texts -/

/-- The parameter is what some text gives, under a declared type or without one. -/
def GivenByText (declared : Option ParamType) (p : Param) : Prop :=
  ∃ raw v, value raw = .ok v ∧ Param.bind declared v = .ok p

theorem givenByText_iff :
    GivenByText declared p ↔ ∃ v : Value, v.HasDocument ∧ Param.bind declared v = .ok p := by
  constructor
  · rintro ⟨raw, v, hv, hbind⟩
    exact ⟨v, hasDocument_of_value hv, hbind⟩
  · rintro ⟨v, hv, hbind⟩
    obtain ⟨raw, hraw⟩ := exists_value_eq_ok_iff.mpr hv
    exact ⟨raw, v, hraw, hbind⟩

theorem givenByText_of_declared (h : p.WellTyped) (htype : p.type ≠ .array .bytes) :
    GivenByText (some p.type) p := by
  obtain ⟨v, hv, haccept⟩ := ParamType.exists_accept h htype
  exact givenByText_iff.mpr ⟨v, hv, Param.resolve_eq_ok_iff.mpr ⟨rfl, haccept⟩⟩

theorem givenByText_blobs_iff :
    GivenByText (some (.array .bytes)) p ↔ p = ⟨.array .bytes, .blobs []⟩ := by
  obtain ⟨type, value⟩ := p
  rw [givenByText_iff]
  constructor
  · rintro ⟨v, hv, hresolve⟩
    obtain ⟨rfl, haccept⟩ := Param.resolve_eq_ok_iff.mp hresolve
    obtain rfl := ParamType.eq_nil_of_accept hv haccept
    rfl
  · rintro ⟨rfl, rfl⟩
    exact ⟨.texts [], trivial, rfl⟩

theorem givenByText_undeclared_iff :
    GivenByText none p ↔ p.WellTyped ∧ p.value.HasDocument := by
  rw [givenByText_iff]
  constructor
  · rintro ⟨v, hv, hinfer⟩
    obtain ⟨rfl, -⟩ := Param.infer_eq_ok_iff.mp hinfer
    exact ⟨Param.wellTyped_of_infer hinfer, hv⟩
  · rintro ⟨h, hv⟩
    exact ⟨p.value, hv, Param.bind_value h (by simp)⟩

/-- **What parameter texts give.**  Under a declared type they give each of its parameters, but
of the lists of byte strings only the empty one.  Without a declared type they give the integers
of 256 bits, the texts, the lists of texts and the byte strings that are not empty, and every
value that a text stands for gives one of these. -/
theorem params_given_by_text :
    (∀ p, p.WellTyped → p.type ≠ .array .bytes → GivenByText (some p.type) p) ∧
      (∀ p, GivenByText (some (.array .bytes)) p ↔ p = ⟨.array .bytes, .blobs []⟩) ∧
      (∀ p, GivenByText none p ↔
        p.WellTyped ∧ (p.type = .uint .w256 ∨ p.type = .string ∨ p.type = .array .string ∨
          p.type = .bytes ∧ p.value ≠ .bytes [])) ∧
      ∀ raw v, value raw = .ok v → ∃ p, Param.infer v = .ok p := by
  refine ⟨?_, ?_, ?_, ?_⟩
  · intro p h htype
    exact givenByText_of_declared h htype
  · intro p
    exact givenByText_blobs_iff
  · intro p
    rw [givenByText_undeclared_iff]
    exact and_congr_right Param.hasDocument_iff
  · intro raw v h
    exact Param.exists_infer (hasDocument_of_value h)

/-- The empty byte string is given if its type is declared, and not without. -/
theorem params_given_by_text_sample :
    GivenByText (some .bytes) ⟨.bytes, .bytes []⟩ ∧ ¬ GivenByText none ⟨.bytes, .bytes []⟩ := by
  obtain ⟨hdeclared, -, hundeclared, -⟩ := params_given_by_text
  refine ⟨hdeclared ⟨.bytes, .bytes []⟩ trivial (by decide), ?_⟩
  intro h
  have htypes := ((hundeclared _).mp h).2
  simp at htypes

end Command

end CallData
