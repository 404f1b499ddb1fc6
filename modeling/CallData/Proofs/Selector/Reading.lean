/-
CallData/Proofs/Selector/Reading.lean

Which texts are selectors.

One mark `0x` is taken off the front of a text if it stands there (`unmarkedText`).  What remains is
a selector if it is eight digits of either case (`exists_ofHex_iff`), namely the selector whose four
bytes they spell (`ofHex_eq_ok_iff`).  Anything else is refused, and the causes come in an order
(`IsRefused`): the UTF-8 form has an odd number of bytes; a byte of it is no digit, and the first
such byte is named; it is digits, but not eight of them.
-/
import CallData.Proofs.Hex
import CallData.Selector

namespace CallData.Selector

/-- The text without the mark `0x` if it begins with one. -/
def unmarkedText (text : String) : String :=
  match text.toList with
  | '0' :: 'x' :: rest => String.ofList rest
  | _ => text

/-- Why what remains of a text without its mark is no selector. -/
inductive IsRefused (digits : Bytes) : Error → Prop where
  | badHex {reason} : Hex.IsRefused digits reason → IsRefused digits (.badHex reason)
  | badLength :
      digits.length % 2 = 0 → (∀ b ∈ digits, Hex.IsDigitByte b) → digits.length ≠ 8 →
      IsRefused digits (.badLength (digits.length / 2))

variable {text : String} {sel : Selector} {e : Error}

/-- The mark is taken off the characters and off the bytes alike. -/
theorem utf8_unmarkedText (text : String) :
    Text.utf8 (unmarkedText text) = Hex.unmarked (Text.utf8 text) := by
  obtain ⟨cs, rfl⟩ : ∃ cs, text = String.ofList cs := ⟨text.toList, String.ofList_toList.symm⟩
  rw [unmarkedText, String.toList_ofList]
  split
  · rw [Text.utf8_ofList_cons_of_ascii (by decide), Text.utf8_ofList_cons_of_ascii (by decide)]
    rfl
  · rename_i hunmarked
    rw [Hex.unmarked]
    -- bytes that spell a mark are the characters of one
    intro rest hrest
    obtain ⟨c, more, rfl, hc, hmore⟩ := Text.exists_cons_of_utf8 hrest (by decide)
    obtain ⟨d, rest, rfl, hd, -⟩ := Text.exists_cons_of_utf8 hmore (by decide)
    obtain rfl : c = '0' := Char.toNat_inj.mp hc
    obtain rfl : d = 'x' := Char.toNat_inj.mp hd
    exact hunmarked rest rfl

theorem ofHex_of_decode_error {reason : Hex.Error}
    (h : Hex.decode (Text.utf8 (unmarkedText text)) = .error reason) :
    ofHex text = .error (.badHex reason) := by
  rw [ofHex, ← utf8_unmarkedText, h]

theorem ofHex_of_spells {bs : Bytes} (h : Hex.Spells (unmarkedText text).toList bs) :
    ofHex text = ofBytes bs := by
  rw [ofHex, ← utf8_unmarkedText, Hex.decode_eq_ok_iff.mpr h]

theorem bytes_inj {sel sel' : Selector} : sel.bytes = sel'.bytes ↔ sel = sel' := by
  obtain ⟨bytes, _⟩ := sel
  obtain ⟨bytes', _⟩ := sel'
  simp

theorem ofBytes_bytes (sel : Selector) : ofBytes sel.bytes = .ok sel :=
  dif_pos sel.length_bytes

theorem ofBytes_of_length_ne {bs : Bytes} (h : bs.length ≠ 4) :
    ofBytes bs = .error (.badLength bs.length) :=
  dif_neg h

/-- Digits of a wrong number of bytes are refused with that number. -/
theorem isRefused_of_spells {bs : Bytes} (h : Hex.Spells text.toList bs) (hlength : bs.length ≠ 4) :
    IsRefused (Text.utf8 text) (.badLength bs.length) := by
  obtain ⟨heven, hdigits⟩ := Hex.exists_spells_iff.mp ⟨bs, h⟩
  have hbytes : (Text.utf8 text).length = 2 * bs.length := h.length_utf8
  have hhalf : (Text.utf8 text).length / 2 = bs.length := by omega
  rw [← hhalf]
  exact .badLength heven hdigits (by omega)

theorem ofHex_of_isRefused (h : IsRefused (Text.utf8 (unmarkedText text)) e) :
    ofHex text = .error e := by
  cases h with
  | badHex hreason => exact ofHex_of_decode_error (Hex.decode_eq_error_iff.mpr hreason)
  | badLength heven hdigits hne =>
    obtain ⟨bs, hbs⟩ := Hex.exists_spells_iff.mpr ⟨heven, hdigits⟩
    have hbytes : (Text.utf8 (unmarkedText text)).length = 2 * bs.length := hbs.length_utf8
    have hhalf : (Text.utf8 (unmarkedText text)).length / 2 = bs.length := by omega
    rw [ofHex_of_spells hbs, ofBytes_of_length_ne (by omega), hhalf]

/-- A text spells a selector, or what remains of it is refused. -/
theorem spells_or_isRefused (text : String) :
    (∃ sel : Selector, Hex.Spells (unmarkedText text).toList sel.bytes) ∨
    ∃ e, IsRefused (Text.utf8 (unmarkedText text)) e := by
  rcases Hex.spells_or_isRefused (unmarkedText text) with ⟨bs, hbs⟩ | ⟨reason, hreason⟩
  · by_cases hfour : bs.length = 4
    · exact .inl ⟨⟨bs, hfour⟩, hbs⟩
    · exact .inr ⟨_, isRefused_of_spells hbs hfour⟩
  · exact .inr ⟨_, .badHex hreason⟩

/-! ### What is read -/

/-- A text is read as the selector whose bytes it spells. -/
theorem ofHex_eq_ok_iff :
    ofHex text = .ok sel ↔ Hex.Spells (unmarkedText text).toList sel.bytes := by
  have hspells {sel : Selector} (h : Hex.Spells (unmarkedText text).toList sel.bytes) :
      ofHex text = .ok sel := by
    rw [ofHex_of_spells h, ofBytes_bytes]
  refine ⟨fun h => ?_, hspells⟩
  rcases spells_or_isRefused text with ⟨sel', hsel'⟩ | ⟨e, he⟩
  · obtain rfl : sel = sel' := Except.ok.inj (h.symm.trans (hspells hsel'))
    exact hsel'
  · rw [ofHex_of_isRefused he] at h
    contradiction

/-- Every other text is refused, for one cause. -/
theorem ofHex_eq_error_iff :
    ofHex text = .error e ↔ IsRefused (Text.utf8 (unmarkedText text)) e := by
  refine ⟨fun h => ?_, ofHex_of_isRefused⟩
  rcases spells_or_isRefused text with ⟨sel, hsel⟩ | ⟨e', he'⟩
  · rw [ofHex_eq_ok_iff.mpr hsel] at h
    contradiction
  · obtain rfl : e = e' := Except.error.inj (h.symm.trans (ofHex_of_isRefused he'))
    exact he'

/-- Eight digits of either case are a selector, and nothing else is one. -/
theorem exists_ofHex_iff : (∃ sel, ofHex text = .ok sel) ↔
    (unmarkedText text).length = 8 ∧ ∀ c ∈ (unmarkedText text).toList, ∃ n, Hex.IsDigit c n := by
  rw [← String.length_toList]
  constructor
  · rintro ⟨sel, h⟩
    have hspells := ofHex_eq_ok_iff.mp h
    exact ⟨by rw [hspells.length_eq, sel.length_bytes], hspells.exists_isDigit⟩
  · rintro ⟨height, hdigits⟩
    obtain ⟨bs, hbs⟩ := Hex.exists_spells hdigits (by rw [height])
    have hfour : bs.length = 4 := by
      have := hbs.length_eq
      omega
    exact ⟨⟨bs, hfour⟩, ofHex_eq_ok_iff.mpr hbs⟩

end CallData.Selector
