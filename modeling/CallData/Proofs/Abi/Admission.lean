/-
CallData/Proofs/Abi/Admission.lean

Which values a declared type admits.

`ParamType.Admits` lists the combinations: a type, a value that may be given for it, and the form
that the value then has.  An integer is given as a number that fits both the width that it claims
and the declared one, or by at most as many bytes as the declared width has; it is the same number
afterwards.  Every other value is given as it is, or it is empty `bytes` or an empty `bytes[]` given
as an empty list.

A type accepts these combinations (`ParamType.accept_eq_ok_iff`) and refuses every other value
(`ParamType.accept_eq_error_iff`).  The order in which the encoder tries the cases is looked at
here only.
-/
import Mathlib.Algebra.Ring.Nat
import CallData.Abi.Param

namespace CallData

/-! ### Widths -/

namespace Abi.Width

theorem fits_eq_true_iff {w : Width} {x : Word} : w.fits x = true ↔ x.toNat < 2 ^ w.bits := by
  simp [fits]

/-- The bytes of a width spell the numbers that fit its bits. -/
theorem pow_byteCount (w : Width) : 256 ^ w.byteCount = 2 ^ w.bits := by
  cases w <;> rfl

/-- No width has more bytes than a word. -/
theorem byteCount_le (w : Width) : w.byteCount ≤ Word.size := by
  cases w <;> decide

theorem toNat_lt {w : Width} {raw : Bytes} (h : raw.length ≤ w.byteCount) :
    raw.toNat < 2 ^ w.bits := by
  calc raw.toNat < 256 ^ raw.length := raw.toNat_lt
    _ ≤ 256 ^ w.byteCount := Nat.pow_le_pow_right (by decide) h
    _ = 2 ^ w.bits := w.pow_byteCount

end Abi.Width

/-- A byte string that is no longer than a word is read as the number it spells. -/
theorem Word.toNat_ofBytes {raw : Bytes} (h : raw.length ≤ size) :
    (ofBytes raw).toNat = raw.toNat := by
  have hlt : raw.toNat < 2 ^ Abi.Width.w256.bits := Abi.Width.toNat_lt h
  rw [ofBytes, BitVec.toNat_ofNat]
  exact Nat.mod_eq_of_lt hlt

namespace Abi.ParamType

/-! ### The combinations -/

/-- The type admits the first value, and the second one is its form under the type. -/
inductive Admits : ParamType → Value → Value → Prop where
  /-- A number, which may claim another width. -/
  | number {target width x} : x.toNat < 2 ^ width.bits → x.toNat < 2 ^ target.bits →
      Admits (.uint target) (.uint width x) (.uint target x)
  /-- The bytes that spell a number, the most significant first. -/
  | spelled {target raw x} : raw.length ≤ target.bits / 8 → x.toNat = raw.toNat →
      Admits (.uint target) (.bytes raw) (.uint target x)
  | bytes {data} : Admits .bytes (.bytes data) (.bytes data)
  | noBytes : Admits .bytes (.texts []) (.bytes [])
  | text {content} : Admits .string (.text content) (.text content)
  | texts {items} : Admits (.array .string) (.texts items) (.texts items)
  | blobs {items} : Admits (.array .bytes) (.blobs items) (.blobs items)
  | noBlobs : Admits (.array .bytes) (.texts []) (.blobs [])

/-- Why the type does not admit the value. -/
def refusal : ParamType → Value → Unsupported
  | .uint target, .uint _ x => .tooWide x (.uint target)
  | .uint target, .bytes raw => .tooLong raw.length (.uint target)
  | ty, v => .misfit v.shape ty

variable {ty : ParamType} {v v' : Value} {e : CallError}

/-- The form of a value belongs to the type. -/
theorem Admits.holds (h : ty.Admits v v') : ty.Holds v' := by
  cases h with
  | number hwidth htarget => exact ⟨rfl, htarget⟩
  | spelled hlen hx => exact ⟨rfl, hx ▸ Width.toNat_lt hlen⟩
  | bytes | noBytes | text | texts | blobs | noBlobs => trivial

/-! ### Accepting a value -/

theorem accept_of_admits (h : ty.Admits v v') : ty.accept v = .ok v' := by
  cases h with
  | @number target width x hwidth htarget =>
    have hfits : (width.fits x && target.fits x) = true := by
      rw [Bool.and_eq_true]
      exact ⟨Width.fits_eq_true_iff.mpr hwidth, Width.fits_eq_true_iff.mpr htarget⟩
    rw [accept, if_pos hfits]
  | @spelled target raw x hlen hx =>
    have hword : Word.ofBytes raw = x := by
      apply BitVec.eq_of_toNat_eq
      rw [Word.toNat_ofBytes (Nat.le_trans hlen target.byteCount_le), hx]
    rw [accept, Width.byteCount, if_pos hlen, hword]
  | bytes | noBytes | text | texts | blobs | noBlobs => rfl

/-- Every value is admitted in some form, or refused. -/
theorem admits_or_refused (ty : ParamType) (v : Value) :
    (∃ v', ty.Admits v v') ∨ ty.accept v = .error (.unsupported (ty.refusal v)) := by
  fun_cases ParamType.accept ty v with
  | case1 target width x hfits =>
    obtain ⟨hwidth, htarget⟩ := Bool.and_eq_true_iff.mp hfits
    exact .inl ⟨_, .number (Width.fits_eq_true_iff.mp hwidth) (Width.fits_eq_true_iff.mp htarget)⟩
  | case2 target width x hfits => exact .inr rfl
  | case3 target raw hlen =>
    exact .inl ⟨_, .spelled hlen (Word.toNat_ofBytes (Nat.le_trans hlen target.byteCount_le))⟩
  | case4 target raw hlen => exact .inr rfl
  | case5 data => exact .inl ⟨_, .bytes⟩
  | case6 => exact .inl ⟨_, .noBytes⟩
  | case7 content => exact .inl ⟨_, .text⟩
  | case8 items => exact .inl ⟨_, .texts⟩
  | case9 items => exact .inl ⟨_, .blobs⟩
  | case10 => exact .inl ⟨_, .noBlobs⟩
  | case11 ty v hnumber hraw =>
    -- a misfit is neither of the two refused integers
    rw [refusal]
    · exact .inr rfl
    · exact hnumber
    · exact hraw

theorem accept_eq_ok_iff : ty.accept v = .ok v' ↔ ty.Admits v v' := by
  constructor
  · intro h
    rcases admits_or_refused ty v with ⟨admitted, hadmits⟩ | hrefused
    · rw [accept_of_admits hadmits] at h
      obtain rfl := Except.ok.inj h
      exact hadmits
    · rw [hrefused] at h
      contradiction
  · exact accept_of_admits

theorem accept_eq_error_iff : ty.accept v = .error e ↔
    (¬ ∃ v', ty.Admits v v') ∧ e = .unsupported (ty.refusal v) := by
  constructor
  · intro h
    rcases admits_or_refused ty v with ⟨v', hadmits⟩ | hrefused
    · rw [accept_of_admits hadmits] at h
      contradiction
    · rw [hrefused] at h
      refine ⟨?_, (Except.error.inj h).symm⟩
      rintro ⟨v', hadmits⟩
      rw [accept_of_admits hadmits] at hrefused
      contradiction
  · rintro ⟨hnone, rfl⟩
    exact (admits_or_refused ty v).resolve_left hnone

/-- A value that belongs to the type is admitted as it stands. -/
theorem admits_of_holds (h : ty.Holds v) : ty.Admits v v := by
  fun_cases ParamType.Holds ty v with
  | case1 target width x =>
    obtain ⟨rfl, hx⟩ := h
    exact .number hx hx
  | case2 data => exact .bytes
  | case3 content => exact .text
  | case4 items => exact .texts
  | case5 items => exact .blobs
  | case6 =>
    rw [Holds] at h
    · exact h.elim
    all_goals assumption

end Abi.ParamType

end CallData
