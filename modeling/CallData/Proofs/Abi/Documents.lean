/-
CallData/Proofs/Abi/Documents.lean

Which JSON documents stand for a value.

A string stands for a text, a number that is written in decimal digits alone for an integer of 256
bits, an array of strings for a list of texts and an array of bytes for a byte string.  `StandsFor`
says this of a document, and `IsUnsupported` says why any other document stands for nothing.  Both
look at a number as a text: whether it consists of digits, whether it begins with a minus sign, and
whether a point or the mark of an exponent is in it.

Main result: a document is read as the value it stands for, and refused with the reason why it
stands for none (`ofJson_classified`).
-/
import Mathlib.Algebra.Ring.Nat
import CallData.Abi.OfJson
import CallData.Proofs.Results

namespace CallData

open Abi

namespace Json

/-! ### Numbers as texts -/

/-- The text is written in decimal digits, and this is the number that they spell. -/
def Spells (text : String) (x : Nat) : Prop :=
  ∃ ds : Text.Digits, text.toList = ds.chars ∧ ds.toNat = x

def BeginsWithMinus (text : String) : Prop := ['-'] <+: text.toList

/-- A decimal point or the mark of an exponent is in the text. -/
def HasMark (text : String) : Prop := ∃ mark ∈ ['.', 'e', 'E'], mark ∈ text.toList

/-! ### Documents and their values -/

/-- The document is a number that spells this byte. -/
inductive IsByteOf : Json → UInt8 → Prop where
  | mk {n : Number} {b : UInt8} : Spells n.text b.toNat → IsByteOf (.number n) b

/-- The document stands for the value. -/
inductive StandsFor : Json → Value → Prop where
  | text {content} : StandsFor (.string content) (.text content)
  | number {n : Number} {x : Word} : Spells n.text x.toNat → StandsFor (.number n) (.uint .w256 x)
  /-- The list of texts may be empty, and then so is the array. -/
  | texts {contents : List String} : StandsFor (.array (contents.map .string)) (.texts contents)
  | bytes {items data} : items ≠ [] → List.Forall₂ IsByteOf items data →
      StandsFor (.array items) (.bytes data)

/-- The document stands for no value, for this reason. -/
inductive IsUnsupported : Json → Unsupported → Prop where
  | null : IsUnsupported .null .null
  | boolean {b} : IsUnsupported (.bool b) .boolean
  | object {members} : IsUnsupported (.object members) .object
  | negative {n : Number} : BeginsWithMinus n.text → IsUnsupported (.number n) (.negative n.text)
  | nonInteger {n : Number} : ¬ BeginsWithMinus n.text → HasMark n.text →
      IsUnsupported (.number n) (.nonInteger n.text)
  | tooLarge {n : Number} {x : Nat} : Spells n.text x → 2 ^ 256 ≤ x →
      IsUnsupported (.number n) (.tooLarge n.text)
  | mixedArray {items} : (∃ item ∈ items, ∀ s, item ≠ .string s) →
      (∃ item ∈ items, ∀ b, ¬ IsByteOf item b) → IsUnsupported (.array items) .mixedArray

variable {n : Number} {x : Nat} {document item : Json} {items : List Json} {b : UInt8}
variable {v : Value} {reason : Unsupported} {e : CallError}

/-! ### The parts of a number in its text -/

namespace Number

/-- The number is written by digits alone. -/
def IsNatural (n : Number) : Prop :=
  n.negative = false ∧ n.fraction = none ∧ n.exponent = none

theorem natural?_eq_some_iff : n.natural? = some x ↔ n.IsNatural ∧ n.whole.toNat = x := by
  obtain ⟨negative, whole, fraction, exponent⟩ := n
  cases negative <;> cases fraction <;> cases exponent <;> simp [natural?, IsNatural]

theorem toList_text (n : Number) : n.text.toList = n.chars := String.toList_ofList

theorem ne_of_mem_digits {c d : Char} {ds : Text.Digits} (h : c ∈ ds.chars)
    (hd : d.isDigit = false) : c ≠ d := by
  rintro rfl
  rw [ds.isDigit c h] at hd
  contradiction

theorem beginsWithMinus_iff : BeginsWithMinus n.text ↔ n.negative = true := by
  rw [BeginsWithMinus, toList_text]
  obtain ⟨negative, whole, fraction, exponent⟩ := n
  cases negative with
  | true => simp [chars]
  | false =>
    -- without a sign the first character is a digit
    rcases hwhole : whole.chars with _ | ⟨d, ds⟩
    · exact absurd hwhole whole.nonempty
    · have hmem : d ∈ whole.chars := by simp [hwhole]
      have hd : d ≠ '-' := ne_of_mem_digits hmem (by decide)
      simp [chars, hwhole, hd.symm]

theorem isDigit_of_mark {mark : Char} (h : mark ∈ ['.', 'e', 'E']) : mark.isDigit = false := by
  simp only [List.mem_cons, List.not_mem_nil, or_false] at h
  rcases h with rfl | rfl | rfl <;> decide

/-- Neither a sign nor a digit is taken for a mark. -/
theorem hasMark_iff : HasMark n.text ↔ n.fraction.isSome ∨ n.exponent.isSome := by
  rw [HasMark]
  simp only [toList_text]
  obtain ⟨negative, whole, _ | fraction, _ | ⟨minus, digits⟩⟩ := n
  · simp only [Option.isSome_none, Bool.false_eq_true, or_self, iff_false]
    rintro ⟨mark, hmark, hmem⟩
    have hminus : mark ≠ '-' := by
      rintro rfl
      contradiction
    have hdigits : mark ∈ whole.chars := by
      cases negative <;> simpa [chars, hminus] using hmem
    exact ne_of_mem_digits hdigits (isDigit_of_mark hmark) rfl
  · simp [chars]
  · simp [chars]
  · simp [chars]

/-- A number without a sign and without a mark is natural. -/
theorem isNatural_iff : n.IsNatural ↔ ¬ BeginsWithMinus n.text ∧ ¬ HasMark n.text := by
  rw [beginsWithMinus_iff, hasMark_iff]
  simp [IsNatural]

/-- The text of a natural number is its digits. -/
theorem toList_text_of_isNatural (h : n.IsNatural) : n.text.toList = n.whole.chars := by
  obtain ⟨hnegative, hfraction, hexponent⟩ := h
  rw [toList_text, chars, hnegative, hfraction, hexponent]
  simp

theorem isNatural_of_spells (h : Spells n.text x) : n.IsNatural := by
  obtain ⟨ds, hchars, -⟩ := h
  rw [isNatural_iff]
  constructor
  · rintro ⟨rest, hrest⟩
    have hmem : '-' ∈ ds.chars := by simp [← hchars, ← hrest]
    exact ne_of_mem_digits hmem (by decide) rfl
  · rintro ⟨mark, hmark, hmem⟩
    rw [hchars] at hmem
    exact ne_of_mem_digits hmem (isDigit_of_mark hmark) rfl

/-- The digits of a text spell the number that is read from it without a sign and a mark. -/
theorem spells_iff : Spells n.text x ↔ n.natural? = some x := by
  rw [natural?_eq_some_iff]
  constructor
  · intro h
    have hnatural := isNatural_of_spells h
    obtain ⟨ds, hchars, rfl⟩ := h
    rw [toList_text_of_isNatural hnatural] at hchars
    exact ⟨hnatural, congrArg (fun cs => Nat.ofDigitChars 10 cs 0) hchars⟩
  · rintro ⟨hnatural, rfl⟩
    exact ⟨n.whole, toList_text_of_isNatural hnatural, rfl⟩

theorem spells_ofNat (x : Nat) : Spells (ofNat x).text x :=
  spells_iff.mpr (by simp [natural?, ofNat])

end Number

/-! ### The parts of an array -/

theorem textOf?_eq_some_iff {s : String} : Value.textOf? item = some s ↔ item = .string s := by
  cases item <;> simp [Value.textOf?]

theorem isByteOf_number_iff : (Json.number n).IsByteOf b ↔ n.natural? = some b.toNat := by
  constructor
  · rintro ⟨hspells⟩
    exact Number.spells_iff.mp hspells
  · intro h
    exact .mk (Number.spells_iff.mpr h)

theorem byteOf?_eq_some_iff : Value.byteOf? item = some b ↔ item.IsByteOf b := by
  cases item with
  | number n =>
    rw [isByteOf_number_iff, Value.byteOf?]
    rcases n.natural? with _ | x
    · simp
    · by_cases hlt : x < 256
      · simp only [hlt, if_true, Option.some.injEq]
        constructor
        · rintro rfl
          exact (UInt8.toNat_ofNat_of_lt' hlt).symm
        · rintro rfl
          exact UInt8.ofNat_toNat
      · have hne : x ≠ b.toNat := fun h => hlt (h ▸ b.toNat_lt)
        simp [hlt, hne]
  | null | bool value | string content | array items | object members =>
    constructor <;> intro h <;> cases h

/-- An array whose items are strings is written for the list of their contents. -/
theorem exists_eq_map_string (h : ∀ item ∈ items, ∃ s, item = .string s) :
    ∃ contents : List String, items = contents.map .string := by
  obtain ⟨contents, hcontents⟩ := exists_forall₂_iff.mpr h
  exact ⟨contents, by rwa [← List.forall₂_eq_eq_eq, List.forall₂_map_right_iff]⟩

/-! ### Reading a document -/

/-- A number with a sign or a mark is refused, whatever its digits are. -/
theorem ofNumber_of_beginsWithMinus_or_hasMark (h : BeginsWithMinus n.text ∨ HasMark n.text) :
    Value.ofNumber n = .error (.unsupported (Value.numberFault n)) := by
  have hnatural : n.natural? = none := by
    rw [Option.eq_none_iff_forall_ne_some]
    intro x hx
    obtain ⟨hminus, hmark⟩ := Number.isNatural_iff.mp (Number.natural?_eq_some_iff.mp hx).1
    exact h.elim hminus hmark
  rw [Value.ofNumber, hnatural]

theorem ofJson_of_standsFor (h : document.StandsFor v) : Value.ofJson document = .ok v := by
  cases h with
  | text => rfl
  | @number n x hspells =>
    rw [Value.ofJson, Value.ofNumber, Number.spells_iff.mp hspells]
    show (if x.toNat < 2 ^ 256 then _ else _) = _
    rw [if_pos x.isLt, BitVec.ofNat_toNat, BitVec.setWidth_eq]
    rfl
  | @texts contents =>
    have hread := mapM_map_of_inverse (f := Value.textOf?) (g := .string) (fun _ => rfl) contents
    rw [Value.ofJson, Value.ofArray, hread]
    rfl
  | @bytes items data hne hitems =>
    have hread : items.mapM Value.byteOf? = some data :=
      mapM_eq_some_iff.mpr (hitems.imp fun _ _ => byteOf?_eq_some_iff.mpr)
    -- the first item is a number, so the items are not read as texts
    have hnotTexts : items.mapM Value.textOf? = none := by
      cases hitems with
      | nil => contradiction
      | cons hfirst =>
        cases hfirst
        exact mapM_eq_none_of_mem List.mem_cons_self (by simp [Value.textOf?])
    rw [Value.ofJson, Value.ofArray, hnotTexts, hread]

theorem ofJson_of_isUnsupported (h : document.IsUnsupported reason) :
    Value.ofJson document = .error (.unsupported reason) := by
  cases h with
  | null | boolean | object => rfl
  | @negative n hminus =>
    rw [Value.ofJson, ofNumber_of_beginsWithMinus_or_hasMark (.inl hminus), Value.numberFault,
      if_pos (Number.beginsWithMinus_iff.mp hminus)]
  | @nonInteger n hminus hmark =>
    rw [Value.ofJson, ofNumber_of_beginsWithMinus_or_hasMark (.inr hmark), Value.numberFault]
    rw [Number.beginsWithMinus_iff] at hminus
    rw [Number.hasMark_iff, ← Bool.or_eq_true] at hmark
    rw [if_neg hminus, if_pos hmark]
  | @tooLarge n x hspells hlarge =>
    have hnatural := Number.isNatural_iff.mp (Number.isNatural_of_spells hspells)
    rw [Number.beginsWithMinus_iff, Number.hasMark_iff, ← Bool.or_eq_true] at hnatural
    rw [Value.ofJson, Value.ofNumber, Number.spells_iff.mp hspells]
    simp only
    rw [if_neg (Nat.not_lt.mpr hlarge), Value.numberFault, if_neg hnatural.1, if_neg hnatural.2]
  | @mixedArray items htext hbyte =>
    obtain ⟨item, hitem, htext⟩ := htext
    obtain ⟨item', hitem', hbyte⟩ := hbyte
    have hnotTexts : items.mapM Value.textOf? = none :=
      mapM_eq_none_of_mem hitem fun s hs => htext s (textOf?_eq_some_iff.mp hs)
    have hnotBytes : items.mapM Value.byteOf? = none :=
      mapM_eq_none_of_mem hitem' fun b hb => hbyte b (byteOf?_eq_some_iff.mp hb)
    rw [Value.ofJson, Value.ofArray, hnotTexts, hnotBytes]

/-- Every document stands for a value, or there is a reason why it stands for none. -/
theorem standsFor_or_isUnsupported (document : Json) :
    (∃ v, document.StandsFor v) ∨ ∃ reason, document.IsUnsupported reason := by
  cases document with
  | null => exact .inr ⟨_, .null⟩
  | bool value => exact .inr ⟨_, .boolean⟩
  | object members => exact .inr ⟨_, .object⟩
  | string content => exact .inl ⟨_, .text⟩
  | number n =>
    by_cases hminus : BeginsWithMinus n.text
    · exact .inr ⟨_, .negative hminus⟩
    · by_cases hmark : HasMark n.text
      · exact .inr ⟨_, .nonInteger hminus hmark⟩
      · -- what is neither signed nor marked is written in digits
        have hnatural := Number.isNatural_iff.mpr ⟨hminus, hmark⟩
        have hspells : Spells n.text n.whole.toNat :=
          Number.spells_iff.mpr (Number.natural?_eq_some_iff.mpr ⟨hnatural, rfl⟩)
        rcases Nat.lt_or_ge n.whole.toNat (2 ^ 256) with hlt | hlarge
        · have hword : (BitVec.ofNat 256 n.whole.toNat).toNat = n.whole.toNat := by
            rw [BitVec.toNat_ofNat, Nat.mod_eq_of_lt hlt]
          exact .inl ⟨_, .number (hword ▸ hspells)⟩
        · exact .inr ⟨_, .tooLarge hspells hlarge⟩
  | array items =>
    by_cases htexts : ∀ item ∈ items, ∃ s, item = .string s
    · obtain ⟨contents, rfl⟩ := exists_eq_map_string htexts
      exact .inl ⟨_, .texts⟩
    · by_cases hbytes : ∀ item ∈ items, ∃ b, item.IsByteOf b
      · obtain ⟨data, hdata⟩ := exists_forall₂_iff.mpr hbytes
        have hne : items ≠ [] := by
          rintro rfl
          exact htexts (by simp)
        exact .inl ⟨_, .bytes hne hdata⟩
      · simp only [not_forall, not_exists] at htexts hbytes
        obtain ⟨item, hitem, htext⟩ := htexts
        obtain ⟨item', hitem', hbyte⟩ := hbytes
        exact .inr ⟨_, .mixedArray ⟨item, hitem, htext⟩ ⟨item', hitem', hbyte⟩⟩

theorem ofJson_eq_ok_iff : Value.ofJson document = .ok v ↔ document.StandsFor v := by
  constructor
  · intro h
    rcases standsFor_or_isUnsupported document with ⟨v', hstands⟩ | ⟨reason, hunsupported⟩
    · rw [ofJson_of_standsFor hstands] at h
      obtain rfl := Except.ok.inj h
      exact hstands
    · rw [ofJson_of_isUnsupported hunsupported] at h
      contradiction
  · exact ofJson_of_standsFor

theorem ofJson_eq_error_iff : Value.ofJson document = .error e ↔
    ∃ reason, document.IsUnsupported reason ∧ e = .unsupported reason := by
  constructor
  · intro h
    rcases standsFor_or_isUnsupported document with ⟨v', hstands⟩ | ⟨reason, hunsupported⟩
    · rw [ofJson_of_standsFor hstands] at h
      contradiction
    · rw [ofJson_of_isUnsupported hunsupported] at h
      exact ⟨reason, hunsupported, (Except.error.inj h).symm⟩
  · rintro ⟨reason, hunsupported, rfl⟩
    exact ofJson_of_isUnsupported hunsupported

/-! ### Main result -/

/-- **What documents stand for.**  A document is read as the value that it stands for, and refused
if it stands for none, with the reason for that.  No array but the empty one has strings only and
bytes only. -/
theorem ofJson_classified (document : Json) :
    (∀ v, Value.ofJson document = .ok v ↔ document.StandsFor v) ∧
    (∀ e, Value.ofJson document = .error e ↔
      ∃ reason, document.IsUnsupported reason ∧ e = .unsupported reason) ∧
    ∀ items, document = .array items → items ≠ [] →
      ¬ ((∀ item ∈ items, ∃ s, item = .string s) ∧ ∀ item ∈ items, ∃ b, item.IsByteOf b) := by
  refine ⟨fun v => ofJson_eq_ok_iff, fun e => ofJson_eq_error_iff, ?_⟩
  rintro items - hne ⟨htexts, hbytes⟩
  obtain ⟨item, hitem⟩ := List.exists_mem_of_ne_nil items hne
  obtain ⟨s, rfl⟩ := htexts item hitem
  obtain ⟨b, hb⟩ := hbytes _ hitem
  cases hb

/-- The number 255 is a byte and 256 is none; a zero with a minus sign is negative. -/
theorem ofJson_classified_sample :
    let bytes : List Json := [.number (.ofNat 0), .number (.ofNat 255)]
    Value.ofJson (.array bytes) = .ok (.bytes [0, 255]) ∧
    ¬ ((∀ item ∈ bytes, ∃ s, item = .string s) ∧ ∀ item ∈ bytes, ∃ b, item.IsByteOf b) ∧
    Value.ofJson (.array [.number (.ofNat 0), .number (.ofNat 256)]) =
      .error (.unsupported .mixedArray) ∧
    Value.ofJson (.number ⟨true, .ofNat 0, none, none⟩) =
      .error (.unsupported (.negative "-0")) := by
  intro bytes
  obtain ⟨hread, -, hboth⟩ := ofJson_classified (.array bytes)
  refine ⟨?_, hboth bytes rfl (by simp [bytes]), ?_, ?_⟩
  · exact (hread _).mpr (.bytes (by simp [bytes]) (.cons (.mk (Number.spells_ofNat 0))
      (.cons (.mk (Number.spells_ofNat 255)) .nil)))
  · refine ((ofJson_classified _).2.1 _).mpr ⟨_, .mixedArray ?_ ?_, rfl⟩
    · exact ⟨_, List.mem_cons_self, by simp⟩
    · refine ⟨.number (.ofNat 256), by simp, ?_⟩
      rintro b hb
      rw [isByteOf_number_iff] at hb
      have hlarge : 256 = b.toNat := Option.some.inj hb
      exact absurd b.toNat_lt (by omega)
  · exact ((ofJson_classified _).2.1 _).mpr
      ⟨_, .negative ⟨['0'], by decide⟩, rfl⟩

end Json

end CallData
