/-
CallData/Proofs/Text/Utf8.lean

Characters below U+0080 and the bytes of a text.

Such a character is one byte, and every other character begins with a byte from 128 on
(`utf8EncodeChar_cases`).  So a byte below 128 at the front of a text is a character
(`exists_cons_of_utf8`), and a text all of whose bytes are below 128 has only such characters
(`forall_ascii_iff`).
-/
import CallData.Text.Utf8

namespace CallData.Text

variable {c : Char} {cs : List Char} {b : UInt8} {rest : Bytes}

theorem toNat_ofNat_of_ascii {n : Nat} (h : n < 128) : (UInt8.ofNat n).toNat = n :=
  UInt8.toNat_ofNat_of_lt' (Nat.lt_trans h (by decide))

/-- A character is one byte below 128, or begins with a byte from 128 on. -/
theorem utf8EncodeChar_cases (c : Char) :
    (c.toNat < 128 ∧ String.utf8EncodeChar c = [UInt8.ofNat c.toNat]) ∨
    (128 ≤ c.toNat ∧ ∃ b rest, String.utf8EncodeChar c = b :: rest ∧ 128 ≤ b.toNat) := by
  have hval : c.toNat = c.val.toNat := rfl
  have hlead (n lead : Nat) (hlead : 128 ≤ lead) (hlt : n + lead < 256) :
      128 ≤ (UInt8.ofNat (n + lead)).toNat := by
    rw [UInt8.toNat_ofNat_of_lt' hlt]
    omega
  rw [hval]
  unfold String.utf8EncodeChar
  by_cases h1 : c.val.toNat ≤ 0x7f
  · exact .inl ⟨by omega, if_pos h1⟩
  · refine .inr ⟨by omega, ?_⟩
    rw [if_neg h1]
    split
    · exact ⟨_, _, rfl, hlead _ _ (by decide) (by omega)⟩
    · split
      · exact ⟨_, _, rfl, hlead _ _ (by decide) (by omega)⟩
      · exact ⟨_, _, rfl, hlead _ _ (by decide) (by omega)⟩

theorem utf8_ofList_cons (c : Char) (cs : List Char) :
    utf8 (String.ofList (c :: cs)) = String.utf8EncodeChar c ++ utf8 (String.ofList cs) := by
  rw [utf8_ofList, utf8_ofList, List.flatMap_cons]

theorem utf8_ofList_cons_of_ascii (h : c.toNat < 128) :
    utf8 (String.ofList (c :: cs)) = UInt8.ofNat c.toNat :: utf8 (String.ofList cs) := by
  rcases utf8EncodeChar_cases c with ⟨-, hchar⟩ | ⟨hge, -⟩
  · rw [utf8_ofList_cons, hchar]
    rfl
  · omega

/-- A byte below 128 at the front is the first character. -/
theorem exists_cons_of_utf8 (h : utf8 (String.ofList cs) = b :: rest) (hb : b.toNat < 128) :
    ∃ c cs', cs = c :: cs' ∧ c.toNat = b.toNat ∧ utf8 (String.ofList cs') = rest := by
  cases cs with
  | nil => contradiction
  | cons c cs =>
    rw [utf8_ofList_cons] at h
    rcases utf8EncodeChar_cases c with ⟨hlt, hchar⟩ | ⟨-, lead, more, hchar, hlead⟩
    · rw [hchar] at h
      obtain ⟨rfl, hrest⟩ := List.cons.inj h
      exact ⟨c, cs, rfl, (toNat_ofNat_of_ascii hlt).symm, hrest⟩
    · rw [hchar] at h
      obtain ⟨rfl, -⟩ := List.cons.inj h
      omega

/-- The bytes are below 128 exactly if the characters are. -/
theorem forall_ascii_iff :
    (∀ b ∈ utf8 (String.ofList cs), b.toNat < 128) ↔ ∀ c ∈ cs, c.toNat < 128 := by
  constructor
  · intro h
    induction cs with
    | nil => simp
    | cons c cs ih =>
      rw [utf8_ofList_cons, List.forall_mem_append] at h
      refine List.forall_mem_cons.mpr ⟨?_, ih h.2⟩
      rcases utf8EncodeChar_cases c with ⟨hlt, -⟩ | ⟨-, lead, more, hchar, hlead⟩
      · exact hlt
      · have hlt := h.1 lead (by rw [hchar]; exact List.mem_cons_self)
        omega
  · intro h b hb
    rw [utf8_ofList_of_ascii cs h] at hb
    obtain ⟨c, hc, rfl⟩ := List.mem_map.mp hb
    rw [toNat_ofNat_of_ascii (h c hc)]
    exact h c hc

end CallData.Text
