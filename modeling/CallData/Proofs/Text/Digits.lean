/-
CallData/Proofs/Text/Digits.lean

Decimal digits, read from a text and written for a number.
-/
import CallData.Text.Digits

namespace CallData.Text.Digits

variable {rest : List Char}

theorem exists_cons (ds : Digits) : ∃ d more, ds.chars = d :: more ∧ d.isDigit = true := by
  rcases hchars : ds.chars with _ | ⟨d, more⟩
  · exact absurd hchars ds.nonempty
  · exact ⟨d, more, rfl, ds.isDigit d (by rw [hchars]; exact List.mem_cons_self)⟩

/-- A run of digits ends where no further digit follows. -/
theorem read?_append (ds : Digits) (hrest : ∀ c ∈ rest.head?, c.isDigit = false) :
    read? (ds.chars ++ rest) = some (ds, rest) := by
  have hstop : rest.takeWhile Char.isDigit = [] ∧ rest.dropWhile Char.isDigit = rest := by
    cases rest with
    | nil => exact ⟨rfl, rfl⟩
    | cons c rest =>
      have hc : ¬ c.isDigit = true := by simpa using hrest c rfl
      exact ⟨List.takeWhile_cons_of_neg hc, List.dropWhile_cons_of_neg hc⟩
  have htake : (ds.chars ++ rest).takeWhile Char.isDigit = ds.chars := by
    rw [List.takeWhile_append_of_pos ds.isDigit, hstop.1, List.append_nil]
  have hdrop : (ds.chars ++ rest).dropWhile Char.isDigit = rest := by
    rw [List.dropWhile_append_of_pos ds.isDigit, hstop.2]
  rw [read?]
  simp [htake, hdrop, ds.nonempty]

/-- The first digit of a number is no zero, unless it is the only one. -/
theorem toDigits_ne_zero_cons (n : Nat) (c : Char) (cs : List Char) :
    Nat.toDigits 10 n ≠ '0' :: c :: cs := by
  induction n using Nat.strongRecOn generalizing c cs with
  | ind n ih =>
    intro h
    rcases Nat.lt_or_ge n 10 with hlt | hge
    · rw [Nat.toDigits_of_lt_base hlt] at h
      simp at h
    · rw [Nat.toDigits_of_base_le (by decide) hge] at h
      -- the digits in front of the last one are those of a smaller number, and not just a zero
      rcases hfront : Nat.toDigits 10 (n / 10) with _ | ⟨d, front⟩
      · exact Nat.toDigits_ne_nil hfront
      · rw [hfront, List.cons_append] at h
        obtain ⟨rfl, -⟩ := List.cons.inj h
        rcases front with _ | ⟨e, front⟩
        · have hzero := Nat.ofDigitChars_ten_toDigits (n := n / 10)
          rw [hfront] at hzero
          have : n / 10 = 0 := hzero.symm
          omega
        · exact ih (n / 10) (by omega) e front hfront

theorem hasLeadingZero_ofNat (n : Nat) : (ofNat n).hasLeadingZero = false := by
  rw [hasLeadingZero]
  split
  · rename_i c cs h
    exact absurd h (toDigits_ne_zero_cons n c cs)
  · rfl

end CallData.Text.Digits
