/-
CallData/Text/Utf8.lean

The UTF-8 bytes of a text, and the text that some bytes are the UTF-8 form of.
Decoding is strict: it fails on every byte string that encodes no text, so it inverts
encoding and nothing else (`ofUtf8?_utf8`).
-/
import CallData.Bytes

namespace CallData.Text

/-- The UTF-8 form of a text. -/
def utf8 (s : String) : Bytes := s.toUTF8.data.toList

/-- The text that `bs` is the UTF-8 form of, if there is one. -/
def ofUtf8? (bs : Bytes) : Option String := String.fromUTF8? ⟨bs.toArray⟩

@[simp] theorem ofUtf8?_utf8 (s : String) : ofUtf8? (utf8 s) = some s := by
  simp only [ofUtf8?, utf8, Array.toArray_toList]
  unfold String.fromUTF8?
  rw [String.toUTF8_eq_toByteArray, dif_pos s.isValidUTF8]
  rfl

theorem utf8_ofList (cs : List Char) :
    utf8 (String.ofList cs) = cs.flatMap String.utf8EncodeChar := by
  simp [utf8, List.utf8Encode]

theorem utf8_append (s t : String) : utf8 (s ++ t) = utf8 s ++ utf8 t := by
  simp [utf8]

/-- Characters below U+0080 are encoded by their numbers. -/
theorem utf8_ofList_of_ascii (cs : List Char) (h : ∀ c ∈ cs, c.toNat < 128) :
    utf8 (String.ofList cs) = cs.map fun c => UInt8.ofNat c.toNat := by
  rw [utf8_ofList]
  induction cs with
  | nil => rfl
  | cons c cs ih =>
    have hc : c.val.toNat ≤ 0x7f := Nat.le_of_lt_succ (h c (by simp))
    have hcs : ∀ d ∈ cs, d.toNat < 128 := fun d hd => h d (by simp [hd])
    rw [List.flatMap_cons, ih hcs, List.map_cons]
    unfold String.utf8EncodeChar
    rw [if_pos hc]
    rfl

end CallData.Text
