/-
CallData/Proofs/Selector.lean

Selectors written with and without the mark `0x`.
-/
import CallData.Selector
import CallData.Settings

namespace CallData

/-- Digits do not begin with a mark, so none is taken off. -/
theorem Hex.unmarked_encode (bs : Bytes) :
    Hex.unmarked (Text.utf8 (Hex.encode bs)) = Text.utf8 (Hex.encode bs) := by
  rw [Hex.utf8_encode]
  cases bs with
  | nil => rfl
  | cons b bs =>
    -- the second character is a digit, and the `x` of a mark is none
    have hdigit := Hex.digitValue?_digitChar (show b.toNat % 16 < 16 by omega)
    show Hex.unmarked (_ :: UInt8.ofNat (Nat.digitChar (b.toNat % 16)).toNat :: _) = _
    rw [Hex.unmarked]
    · rfl
    · intro rest h
      have hx : UInt8.ofNat (Nat.digitChar (b.toNat % 16)).toNat = 0x78 :=
        (List.cons.inj (List.cons.inj h).2).1
      have hnone : Hex.digitValue? 0x78 = none := by decide
      rw [hx, hnone] at hdigit
      cases hdigit

namespace Selector

/-- A selector is read from its digits, also without the mark. -/
theorem ofHex_encode (s : Selector) : ofHex (Hex.encode s.bytes) = .ok s := by
  rw [ofHex, Hex.unmarked_encode, Hex.decode_encode]
  simp [ofBytes, s.length_bytes]

/-- A selector is read from its digits with the mark or without. -/
theorem ofHex_of_digits {s : Selector} {text : String}
    (h : text = Hex.encode s.bytes ∨ text = "0x" ++ Hex.encode s.bytes) : ofHex text = .ok s := by
  rcases h with rfl | rfl
  · exact ofHex_encode s
  · exact ofHex_toHex s

end Selector

/-- Bytes are shown by their digits with the mark or without. -/
theorem Settings.hexText_eq (settings : Settings) (bs : Bytes) :
    settings.hexText bs = Hex.encode bs ∨ settings.hexText bs = "0x" ++ Hex.encode bs := by
  rw [hexText]
  split
  · exact .inr rfl
  · exact .inl rfl

end CallData
