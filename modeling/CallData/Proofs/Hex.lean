/-
CallData/Proofs/Hex.lean

Which texts are hexadecimal, and which bytes they spell.

`Spells` says what digits of either case spell, pair by pair.  `IsRefused` says why some bytes are
no digits: there is an odd number of them, or else one of them is no digit, and the first such byte
is named with its position.  Neither mentions the reader.  The reader follows both, and a text
spells bytes or its UTF-8 form is refused (`spells_or_isRefused`); so it reads exactly what the two
relations say (`decode_eq_ok_iff`, `decode_eq_error_iff`).
-/
import CallData.Hex
import CallData.Proofs.Results
import CallData.Proofs.Text.Utf8
import Mathlib.Data.List.Induction

namespace CallData.Hex

/-! ### Digits -/

def lowerDigits : List Char :=
  ['0', '1', '2', '3', '4', '5', '6', '7', '8', '9', 'a', 'b', 'c', 'd', 'e', 'f']

def upperDigits : List Char :=
  ['0', '1', '2', '3', '4', '5', '6', '7', '8', '9', 'A', 'B', 'C', 'D', 'E', 'F']

/-- The character is the digit with this value, in either case. -/
def IsDigit (c : Char) (n : Nat) : Prop := lowerDigits[n]? = some c ∨ upperDigits[n]? = some c

/-- The byte is a digit. -/
def IsDigitByte (b : UInt8) : Prop := ∃ c n, IsDigit c n ∧ b = UInt8.ofNat c.toNat

/-- The digits spell these bytes, two digits for each, the first of them counting sixteen. -/
inductive Spells : List Char → Bytes → Prop where
  | nil : Spells [] []
  | pair {high low h l text bs} :
      IsDigit high h → IsDigit low l → Spells text bs →
      Spells (high :: low :: text) (UInt8.ofNat (16 * h + l) :: bs)

/-- Why some bytes are no pairs of digits. -/
inductive IsRefused (text : Bytes) : Error → Prop where
  | oddLength : text.length % 2 = 1 → IsRefused text .oddLength
  | badDigit {before b after} :
      text.length % 2 = 0 → text = before ++ b :: after →
      (∀ d ∈ before, IsDigitByte d) → ¬ IsDigitByte b →
      IsRefused text (.badDigit b before.length)

variable {c : Char} {n : Nat} {b : UInt8} {cs : List Char} {bs bytes : Bytes} {text : String}
variable {e : Error}

theorem digitChar_mem (h : n < 16) : Nat.digitChar n ∈ lowerDigits := by
  revert n
  decide

/-- Bytes are written in lower case. -/
theorem mem_lowerDigits (h : c ∈ digits bs) : c ∈ lowerDigits := by
  obtain ⟨n, hn, rfl⟩ := exists_of_mem_digits h
  exact digitChar_mem hn

theorem IsDigit.mem (h : IsDigit c n) : c ∈ lowerDigits ++ upperDigits := by
  rcases h with h | h
  · exact List.mem_append_left _ (List.mem_of_getElem? h)
  · exact List.mem_append_right _ (List.mem_of_getElem? h)

theorem IsDigit.ascii (h : IsDigit c n) : c.toNat < 128 := by
  have hall : (lowerDigits ++ upperDigits).all (·.toNat < 128) = true := by decide
  exact of_decide_eq_true (List.all_eq_true.mp hall c h.mem)

theorem digitValue?_of_isDigit (h : IsDigit c n) :
    digitValue? (UInt8.ofNat c.toNat) = some n := by
  have hall : ∀ n < 16, (lowerDigits[n]?.toList ++ upperDigits[n]?.toList).all
      fun c => digitValue? (UInt8.ofNat c.toNat) = some n := by decide
  have hlt : n < 16 := by
    rcases h with h | h
    · exact (List.getElem?_eq_some_iff.mp h).1
    · exact (List.getElem?_eq_some_iff.mp h).1
  refine of_decide_eq_true (List.all_eq_true.mp (hall n hlt) c ?_)
  rcases h with h | h <;> simp [h]

/-- What has a value is a digit. -/
theorem isDigitByte_of_digitValue? (h : digitValue? b = some n) : IsDigitByte b := by
  have hall : ∀ k < 256, (digitValue? (UInt8.ofNat k)).isSome →
      ∃ n < 16, (lowerDigits[n]?.toList ++ upperDigits[n]?.toList).any
        fun c => UInt8.ofNat k = UInt8.ofNat c.toNat := by decide +kernel
  have hb := hall b.toNat b.toNat_lt
  rw [UInt8.ofNat_toNat, h] at hb
  obtain ⟨n, -, hany⟩ := hb rfl
  obtain ⟨c, hc, hbyte⟩ := List.any_eq_true.mp hany
  refine ⟨c, n, ?_, of_decide_eq_true hbyte⟩
  simpa [IsDigit] using hc

theorem digitAt_of_not_isDigitByte (h : ¬ IsDigitByte b) (position : Nat) :
    digitAt position b = .error (.badDigit b position) := by
  rw [digitAt]
  split
  · rename_i n hn
    exact absurd (isDigitByte_of_digitValue? hn) h
  · rfl

theorem exists_digitAt (h : IsDigitByte b) (position : Nat) : ∃ n, digitAt position b = .ok n := by
  obtain ⟨c, n, hc, rfl⟩ := h
  exact ⟨n, by rw [digitAt, digitValue?_of_isDigit hc]⟩

/-- A character whose byte is a digit is that digit. -/
theorem exists_isDigit (hc : c.toNat < 128) (h : IsDigitByte (UInt8.ofNat c.toNat)) :
    ∃ n, IsDigit c n := by
  obtain ⟨d, n, hd, hsame⟩ := h
  have hnum : c.toNat = d.toNat := by
    rw [← Text.toNat_ofNat_of_ascii hc, hsame, Text.toNat_ofNat_of_ascii hd.ascii]
  obtain rfl : c = d := Char.toNat_inj.mp hnum
  exact ⟨n, hd⟩

theorem IsDigitByte.lt (h : IsDigitByte b) : b.toNat < 128 := by
  obtain ⟨c, n, hc, rfl⟩ := h
  rw [Text.toNat_ofNat_of_ascii hc.ascii]
  exact hc.ascii

/-! ### Texts that spell bytes -/

theorem Spells.length_eq (h : Spells cs bs) : cs.length = 2 * bs.length := by
  induction h with
  | nil => rfl
  | pair _ _ _ ih =>
    rw [List.length_cons, List.length_cons, List.length_cons, ih]
    omega

theorem Spells.exists_isDigit (h : Spells cs bs) : ∀ c ∈ cs, ∃ n, IsDigit c n := by
  induction h with
  | nil => simp
  | pair hhigh hlow _ ih =>
    exact List.forall_mem_cons.mpr ⟨⟨_, hhigh⟩, List.forall_mem_cons.mpr ⟨⟨_, hlow⟩, ih⟩⟩

/-- Digits in pairs spell bytes. -/
theorem exists_spells (h : ∀ c ∈ cs, ∃ n, IsDigit c n) (heven : cs.length % 2 = 0) :
    ∃ bs, Spells cs bs := by
  induction cs using List.twoStepInduction with
  | nil => exact ⟨[], .nil⟩
  | singleton c => simp at heven
  | cons_cons high low cs ih _ =>
    obtain ⟨⟨m, hhigh⟩, ⟨n, hlow⟩, hcs⟩ :
        (∃ m, IsDigit high m) ∧ (∃ n, IsDigit low n) ∧ ∀ c ∈ cs, ∃ n, IsDigit c n := by
      simpa using h
    have hshorter : cs.length % 2 = 0 := by
      rw [List.length_cons, List.length_cons] at heven
      omega
    obtain ⟨bs, hbs⟩ := ih hcs hshorter
    exact ⟨_, .pair hhigh hlow hbs⟩

theorem utf8_of_isDigit (h : ∀ c ∈ cs, ∃ n, IsDigit c n) :
    Text.utf8 (String.ofList cs) = cs.map fun c => UInt8.ofNat c.toNat := by
  refine Text.utf8_ofList_of_ascii cs fun c hc => ?_
  obtain ⟨n, hn⟩ := h c hc
  exact hn.ascii

theorem Spells.length_utf8 (h : Spells text.toList bs) :
    (Text.utf8 text).length = 2 * bs.length := by
  rw [← String.ofList_toList (s := text), utf8_of_isDigit h.exists_isDigit, List.length_map,
    h.length_eq]

theorem Spells.decodePairs (h : Spells cs bs) (position : Nat) :
    decodePairs position (cs.map fun c => UInt8.ofNat c.toNat) = .ok bs := by
  induction h generalizing position with
  | nil => rfl
  | pair hhigh hlow _ ih =>
    rw [List.map_cons, List.map_cons, Hex.decodePairs, digitAt, digitValue?_of_isDigit hhigh,
      ok_bind, digitAt, digitValue?_of_isDigit hlow, ok_bind, ih]
    rfl

/-- A text is read as the bytes that it spells. -/
theorem decode_of_spells (h : Spells cs bs) : decode (Text.utf8 (String.ofList cs)) = .ok bs := by
  have heven : ¬ (cs.map fun c => UInt8.ofNat c.toNat).length % 2 = 1 := by
    rw [List.length_map, h.length_eq]
    omega
  rw [utf8_of_isDigit h.exists_isDigit, decode, if_neg heven, h.decodePairs]

/-! ### Bytes that are refused -/

/-- Reading stops at the first byte that is no digit. -/
theorem decodePairs_of_badDigit {before after : Bytes} (hbefore : ∀ d ∈ before, IsDigitByte d)
    (hb : ¬ IsDigitByte b) (heven : (before ++ b :: after).length % 2 = 0) (position : Nat) :
    decodePairs position (before ++ b :: after) =
      .error (.badDigit b (position + before.length)) := by
  -- pairs of digits are passed over until the byte is the first or the second of its pair
  induction before using List.twoStepInduction generalizing position with
  | nil =>
    cases after with
    | nil => simp at heven
    | cons low rest =>
      rw [List.nil_append, decodePairs, digitAt_of_not_isDigitByte hb]
      rfl
  | singleton high =>
    obtain ⟨h, hhigh⟩ := exists_digitAt (hbefore high List.mem_cons_self) position
    rw [List.singleton_append, decodePairs, hhigh, ok_bind, digitAt_of_not_isDigitByte hb]
    rfl
  | cons_cons high low before ih _ =>
    obtain ⟨hhigh, hlow, hrest⟩ :
        IsDigitByte high ∧ IsDigitByte low ∧ ∀ d ∈ before, IsDigitByte d := by
      simpa using hbefore
    obtain ⟨h, hhigh⟩ := exists_digitAt hhigh position
    obtain ⟨l, hlow⟩ := exists_digitAt hlow (position + 1)
    have hshorter : (before ++ b :: after).length % 2 = 0 := by
      rw [List.cons_append, List.cons_append, List.length_cons, List.length_cons] at heven
      omega
    have hplace : position + 2 + before.length = position + (high :: low :: before).length := by
      rw [List.length_cons, List.length_cons]
      omega
    rw [List.cons_append, List.cons_append, decodePairs, hhigh, ok_bind, hlow, ok_bind,
      ih hrest hshorter, hplace]
    rfl

theorem decode_of_isRefused (h : IsRefused bytes e) : decode bytes = .error e := by
  cases h with
  | oddLength hodd => rw [decode, if_pos hodd]
  | @badDigit before b after heven hsplit hbefore hb =>
    rw [decode, if_neg (by omega), hsplit, decodePairs_of_badDigit hbefore hb (hsplit ▸ heven),
      Nat.zero_add]

/-! ### What is read -/

/-- Some bytes are pairs of digits, or they are refused. -/
theorem digits_or_isRefused (bytes : Bytes) :
    (bytes.length % 2 = 0 ∧ ∀ b ∈ bytes, IsDigitByte b) ∨ ∃ e, IsRefused bytes e := by
  classical
  by_cases hodd : bytes.length % 2 = 1
  · exact .inr ⟨_, .oddLength hodd⟩
  have heven : bytes.length % 2 = 0 := by omega
  rcases hfirst : bytes.find? fun b => !decide (IsDigitByte b) with _ | b
  · refine .inl ⟨heven, fun b hb => ?_⟩
    simpa using List.find?_eq_none.mp hfirst b hb
  · obtain ⟨hb, before, after, hsplit, hbefore⟩ := List.find?_eq_some_iff_append.mp hfirst
    exact .inr ⟨_, .badDigit heven hsplit (by simpa using hbefore) (by simpa using hb)⟩

/-- What spells bytes is an even number of digits. -/
theorem exists_spells_iff : (∃ bs, Spells text.toList bs) ↔
    (Text.utf8 text).length % 2 = 0 ∧ ∀ b ∈ Text.utf8 text, IsDigitByte b := by
  obtain ⟨cs, rfl⟩ : ∃ cs, text = String.ofList cs := ⟨text.toList, String.ofList_toList.symm⟩
  rw [String.toList_ofList]
  constructor
  · rintro ⟨bs, h⟩
    rw [utf8_of_isDigit h.exists_isDigit, List.length_map, h.length_eq]
    refine ⟨by omega, List.forall_mem_map.mpr fun c hc => ?_⟩
    obtain ⟨n, hn⟩ := h.exists_isDigit c hc
    exact ⟨c, n, hn, rfl⟩
  · rintro ⟨heven, hdigits⟩
    have hascii : ∀ c ∈ cs, c.toNat < 128 := Text.forall_ascii_iff.mp fun b hb => (hdigits b hb).lt
    rw [Text.utf8_ofList_of_ascii cs hascii] at heven hdigits
    rw [List.length_map] at heven
    exact exists_spells
      (fun c hc => exists_isDigit (hascii c hc) (hdigits _ (List.mem_map_of_mem hc))) heven

theorem spells_or_isRefused (text : String) :
    (∃ bs, Spells text.toList bs) ∨ ∃ e, IsRefused (Text.utf8 text) e := by
  rcases digits_or_isRefused (Text.utf8 text) with hdigits | hrefused
  · exact .inl (exists_spells_iff.mpr hdigits)
  · exact .inr hrefused

theorem decode_eq_ok_iff : decode (Text.utf8 text) = .ok bs ↔ Spells text.toList bs := by
  have hspells {bs : Bytes} (h : Spells text.toList bs) : decode (Text.utf8 text) = .ok bs := by
    rw [← String.ofList_toList (s := text)]
    exact decode_of_spells h
  refine ⟨fun h => ?_, hspells⟩
  rcases spells_or_isRefused text with ⟨bs', hbs'⟩ | ⟨e, he⟩
  · obtain rfl : bs = bs' := Except.ok.inj (h.symm.trans (hspells hbs'))
    exact hbs'
  · rw [decode_of_isRefused he] at h
    contradiction

theorem decode_eq_error_iff :
    decode (Text.utf8 text) = .error e ↔ IsRefused (Text.utf8 text) e := by
  refine ⟨fun h => ?_, decode_of_isRefused⟩
  rcases spells_or_isRefused text with ⟨bs, hbs⟩ | ⟨e', he'⟩
  · rw [decode_eq_ok_iff.mpr hbs] at h
    contradiction
  · obtain rfl : e = e' := Except.error.inj (h.symm.trans (decode_of_isRefused he'))
    exact he'

end CallData.Hex
