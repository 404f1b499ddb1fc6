/-
CallData/Proofs/Abi/Binding.lean

What binding a value gives.

A value infers exactly the types that it belongs to (`Value.inferType_eq_ok_iff`), and under
a declared type it takes a form that belongs to that type (`ParamType.Admits.holds`).  So
every parameter that binding gives is well typed, however the value was supplied
(`Param.wellTyped_of_bind`), and each well-typed parameter is one that binding gives.

Main result: binding to a declared type gives what the type admits, refuses everything else as
unsupported, and changes nothing when it is repeated (`Param.resolve_admits`).
-/
import CallData.Proofs.Abi.Admission

namespace CallData.Abi

variable {v v' : Value} {ty : ParamType} {p : Param} {declared : Option ParamType}

/-! ### What belongs to a type -/

/-- The values of an integer type are the numbers of its width. -/
theorem Value.eq_uint_of_holds {w : Width} (h : (ParamType.uint w).Holds v) :
    ∃ x, v = .uint w x ∧ x.toNat < 2 ^ w.bits := by
  cases v with
  | uint width x =>
    obtain ⟨rfl, hx⟩ := h
    exact ⟨x, rfl, hx⟩
  | bytes data | text content | texts items | blobs items => exact h.elim

/-- A number belongs to the integer type of its width only. -/
theorem ParamType.eq_uint_of_holds {w : Width} {x : Word} (h : ty.Holds (.uint w x)) :
    ty = .uint w := by
  cases ty with
  | uint target => rw [h.1]
  | bytes | string | array element => simp [Holds] at h

/-! ### Inferred types -/

/-- A value infers the types it belongs to and no others. -/
theorem Value.inferType_eq_ok_iff : v.inferType = .ok ty ↔ ty.Holds v := by
  cases v with
  | uint width x =>
    -- either way a type that the number belongs to is the integer type of its width
    by_cases hfits : width.fits x = true
    · have hx : x.toNat < 2 ^ width.bits := Width.fits_eq_true_iff.mp hfits
      rw [inferType, if_pos hfits, Except.ok.injEq]
      constructor
      · rintro rfl
        exact ⟨rfl, hx⟩
      · intro h
        exact (ParamType.eq_uint_of_holds h).symm
    · rw [inferType, if_neg hfits]
      constructor
      · intro h
        contradiction
      · intro h
        obtain rfl := ParamType.eq_uint_of_holds h
        exact absurd (Width.fits_eq_true_iff.mpr h.2) hfits
  | bytes data | text content | texts items | blobs items =>
    -- the other values name their type, so the two sides agree type by type
    rcases ty with _ | _ | _ | (_ | _) <;> simp [inferType, ParamType.Holds]

/-! ### Parameters -/

namespace Param

theorem infer_eq_ok_iff : infer v = .ok p ↔ p.value = v ∧ v.inferType = .ok p.type := by
  obtain ⟨type, value⟩ := p
  rcases e : v.inferType with reason | ty
  · simp [infer, e, Bind.bind, Except.bind]
  · have hinfer : infer v = .ok ⟨ty, v⟩ := by
      rw [infer, e]
      rfl
    rw [hinfer]
    simp [and_comm, eq_comm]

theorem resolve_eq_ok_iff : resolve ty v = .ok p ↔ p.type = ty ∧ ty.accept v = .ok p.value := by
  obtain ⟨type, value⟩ := p
  rcases e : ty.accept v with reason | v'
  · simp [resolve, e, Bind.bind, Except.bind]
  · have hresolve : resolve ty v = .ok ⟨ty, v'⟩ := by
      rw [resolve, e]
      rfl
    rw [hresolve]
    simp [eq_comm]

theorem resolve_eq_error_iff {e : CallError} :
    resolve ty v = .error e ↔ ty.accept v = .error e := by
  rcases haccept : ty.accept v with reason | v' <;>
    simp [resolve, haccept, Bind.bind, Except.bind, pure, Except.pure]

theorem wellTyped_of_infer (h : infer v = .ok p) : p.WellTyped := by
  obtain ⟨hvalue, htype⟩ := infer_eq_ok_iff.mp h
  rw [WellTyped, hvalue]
  exact Value.inferType_eq_ok_iff.mp htype

theorem wellTyped_of_resolve (h : resolve ty v = .ok p) : p.WellTyped := by
  obtain ⟨htype, hvalue⟩ := resolve_eq_ok_iff.mp h
  rw [WellTyped, htype]
  exact (ParamType.accept_eq_ok_iff.mp hvalue).holds

theorem wellTyped_of_bind (h : bind declared v = .ok p) : p.WellTyped := by
  cases declared with
  | none => exact wellTyped_of_infer h
  | some ty => exact wellTyped_of_resolve h

/-- A well-typed parameter is what its value gives, with its type declared or with none. -/
theorem bind_value (h : p.WellTyped) (hdeclared : ∀ ty, declared = some ty → p.type = ty) :
    bind declared p.value = .ok p := by
  rcases declared with _ | ty
  · exact infer_eq_ok_iff.mpr ⟨rfl, Value.inferType_eq_ok_iff.mpr h⟩
  · obtain rfl : p.type = ty := hdeclared ty rfl
    exact resolve_eq_ok_iff.mpr
      ⟨rfl, ParamType.accept_of_admits (ParamType.admits_of_holds h)⟩

/-- The parameter comes from binding a value, by itself or to a declared type. -/
def IsBound (p : Param) : Prop := (∃ v, infer v = .ok p) ∨ ∃ ty v, resolve ty v = .ok p

/-- Binding gives the well-typed parameters. -/
theorem isBound_iff_wellTyped : p.IsBound ↔ p.WellTyped := by
  constructor
  · rintro (⟨v, h⟩ | ⟨ty, v, h⟩)
    · exact wellTyped_of_infer h
    · exact wellTyped_of_resolve h
  · intro h
    exact .inl ⟨p.value, infer_eq_ok_iff.mpr ⟨rfl, Value.inferType_eq_ok_iff.mpr h⟩⟩

/-! ### Main result -/

/-- Binding to a declared type gives a parameter of that type exactly for the values that the type
admits, in the form that it admits them in.  Every other value is refused as unsupported.  A
parameter stays the same when its value is bound again, to the type or by itself. -/
theorem resolve_admits (ty : ParamType) (v : Value) :
    (∀ p, resolve ty v = .ok p ↔ p.type = ty ∧ ty.Admits v p.value) ∧
    (∀ e, resolve ty v = .error e ↔
      (¬ ∃ v', ty.Admits v v') ∧ e = .unsupported (ty.refusal v)) ∧
    (∀ p, resolve ty v = .ok p →
      p.WellTyped ∧ resolve ty p.value = .ok p ∧ infer p.value = .ok p) := by
  refine ⟨?_, ?_, ?_⟩
  · intro p
    rw [resolve_eq_ok_iff, ParamType.accept_eq_ok_iff]
  · intro e
    rw [resolve_eq_error_iff, ParamType.accept_eq_error_iff]
  · intro p h
    have htyped : p.WellTyped := wellTyped_of_resolve h
    have htype : p.type = ty := (resolve_eq_ok_iff.mp h).1
    have hagain : bind (some ty) p.value = .ok p := bind_value htyped (by simp [htype])
    have halone : bind none p.value = .ok p := bind_value htyped (by simp)
    exact ⟨htyped, hagain, halone⟩

/-- Three bytes spell a number of 32 bits; five are too many even if four of them are zero. -/
theorem resolve_admits_sample :
    resolve (.uint .w32) (.bytes [0, 1, 2]) = .ok ⟨.uint .w32, .uint .w32 258⟩ ∧
    resolve (.uint .w32) (.uint .w32 258) = .ok ⟨.uint .w32, .uint .w32 258⟩ ∧
    infer (.uint .w32 258) = .ok ⟨.uint .w32, .uint .w32 258⟩ ∧
    resolve (.uint .w32) (.bytes [0, 0, 0, 0, 1]) =
      .error (.unsupported (.tooLong 5 (.uint .w32))) := by
  have hspelled : resolve (.uint .w32) (.bytes [0, 1, 2]) = .ok ⟨.uint .w32, .uint .w32 258⟩ :=
    ((resolve_admits _ _).1 _).mpr ⟨rfl, .spelled (by decide) rfl⟩
  obtain ⟨-, hagain, halone⟩ := (resolve_admits _ _).2.2 _ hspelled
  refine ⟨hspelled, hagain, halone, ((resolve_admits _ _).2.1 _).mpr ⟨?_, rfl⟩⟩
  rintro ⟨v', hadmits⟩
  cases hadmits with
  | spelled hlen => exact absurd hlen (by decide)

end Param

end CallData.Abi
