/-
CallData/Proofs/Command/ParameterDocument.lean

Parameter texts that are JSON documents, and those that are none.

A parameter text that is a document stands for the document's value, and fails if the document has
none; every other text stands for itself.  So a document other than a string is never taken for the
string of its characters, as long as it is read at all: a document that is nested deeper than the
reader goes counts as no document (`value_of_text`).  Such a document has no value, so it ought to
be refused; it passes as a text instead (`value_of_deep_array`).

One key of objects is set apart (`Json.reservedKey`): a reader that keeps the digits of numbers
hands them on under it, and may take an object with this key for a number.  What is said of the
value of a document is said of those without it.
-/
import CallData.Proofs.Abi.Documents
import CallData.Proofs.Command.Arguments
import CallData.Proofs.Json.Soundness

namespace CallData

namespace Json

/-! ### Keys -/

/-- The key under which a reader hands on the digits of a number. -/
def reservedKey : String := "$serde_json::private::Number"

/-- The key stands in an object somewhere in the document. -/
inductive HasKey (key : String) : Json → Prop
  | member {members value} (h : (key, value) ∈ members) : HasKey key (.object members)
  | inMember {members name value} (h : (name, value) ∈ members) (hvalue : HasKey key value) :
      HasKey key (.object members)
  | inItem {items item} (h : item ∈ items) (hitem : HasKey key item) : HasKey key (.array items)

theorem hasKey_array_iff {key : String} {items : List Json} :
    (Json.array items).HasKey key ↔ ∃ item ∈ items, item.HasKey key := by
  constructor
  · rintro (_ | _ | ⟨hmem, hitem⟩)
    exact ⟨_, hmem, hitem⟩
  · rintro ⟨item, hmem, hitem⟩
    exact .inItem hmem hitem

theorem not_hasKey_number {key : String} {n : Number} : ¬ (Json.number n).HasKey key := nofun

/-! ### Documents that have a value -/

def IsString : Json → Prop
  | .string _ => True
  | _ => False

/-- A number of one byte, written by digits alone. -/
def IsByte : Json → Prop
  | .number n => n.IsNatural ∧ n.whole.toNat < 256
  | _ => False

/-- The document has a value: it is a string, a natural number of 256 bits, or an array of strings
or of bytes. -/
def HasValue : Json → Prop
  | .string _ => True
  | .number n => n.IsNatural ∧ n.whole.toNat < 2 ^ 256
  | .array items => (∀ item ∈ items, item.IsString) ∨ ∀ item ∈ items, item.IsByte
  | _ => False

variable {document : Json}

/-- Neither a string nor a byte holds another value. -/
theorem depth_eq_zero_of_isString (h : document.IsString) : document.depth = 0 := by
  cases document with
  | string content => rfl
  | _ => exact h.elim

theorem depth_eq_zero_of_isByte (h : document.IsByte) : document.depth = 0 := by
  cases document with
  | number n => rfl
  | _ => exact h.elim

/-- A document with a value is an array of scalars at the most. -/
theorem depth_le_one_of_hasValue (h : document.HasValue) : document.depth ≤ 1 := by
  cases document with
  | null | bool value | object members => exact h.elim
  | number n | string content => exact Nat.zero_le 1
  | array items =>
    rw [depth_array_le_iff]
    intro item hitem
    rcases h with hstrings | hbytes
    · exact Nat.le_of_eq (depth_eq_zero_of_isString (hstrings item hitem))
    · exact Nat.le_of_eq (depth_eq_zero_of_isByte (hbytes item hitem))

end Json

namespace Abi.Value

variable {document : Json} {v : Value} {s : String} {reason : Unsupported}

theorem exists_string_iff : (∃ s, document = .string s) ↔ document.IsString := by
  cases document <;> simp [Json.IsString]

theorem exists_isByteOf_iff : (∃ b, document.IsByteOf b) ↔ document.IsByte := by
  cases document with
  | number n =>
    simp only [Json.isByteOf_number_iff, Json.Number.natural?_eq_some_iff, Json.IsByte]
    constructor
    · rintro ⟨b, hnatural, hb⟩
      exact ⟨hnatural, hb ▸ b.toNat_lt⟩
    · rintro ⟨hnatural, hlt⟩
      exact ⟨UInt8.ofNat n.whole.toNat, hnatural, (UInt8.toNat_ofNat_of_lt' hlt).symm⟩
  | null | bool value | string content | array items | object members =>
    constructor
    · rintro ⟨b, ⟨⟩⟩
    · exact False.elim

theorem hasValue_of_standsFor (h : document.StandsFor v) : document.HasValue := by
  cases h with
  | text => trivial
  | @number n x hspells =>
    obtain ⟨hnatural, hx⟩ :=
      Json.Number.natural?_eq_some_iff.mp (Json.Number.spells_iff.mp hspells)
    exact ⟨hnatural, hx ▸ x.isLt⟩
  | @texts contents => exact .inl (List.forall_mem_map.mpr fun _ _ => trivial)
  | @bytes items data hne hitems =>
    have hbytes := exists_forall₂_iff.mp ⟨data, hitems⟩
    exact .inr fun item hitem => exists_isByteOf_iff.mp (hbytes item hitem)

theorem not_hasValue_of_isUnsupported (h : document.IsUnsupported reason) :
    ¬ document.HasValue := by
  intro hvalue
  cases h with
  | null | boolean | object => exact hvalue
  | negative hminus => exact (Json.Number.isNatural_iff.mp hvalue.1).1 hminus
  | nonInteger _ hmark => exact (Json.Number.isNatural_iff.mp hvalue.1).2 hmark
  | tooLarge hspells hlarge =>
    obtain ⟨-, rfl⟩ := Json.Number.natural?_eq_some_iff.mp (Json.Number.spells_iff.mp hspells)
    exact Nat.not_lt.mpr hlarge hvalue.2
  | mixedArray htext hbyte =>
    rcases hvalue with hstrings | hbytes
    · obtain ⟨item, hitem, hnone⟩ := htext
      obtain ⟨s, hs⟩ := exists_string_iff.mpr (hstrings item hitem)
      exact hnone s hs
    · obtain ⟨item, hitem, hnone⟩ := hbyte
      obtain ⟨b, hb⟩ := exists_isByteOf_iff.mpr (hbytes item hitem)
      exact hnone b hb

theorem exists_ofJson_iff : (∃ v, ofJson document = .ok v) ↔ document.HasValue := by
  simp only [Json.ofJson_eq_ok_iff]
  constructor
  · rintro ⟨v, h⟩
    exact hasValue_of_standsFor h
  · intro h
    refine (Json.standsFor_or_isUnsupported document).resolve_right ?_
    rintro ⟨reason, hunsupported⟩
    exact not_hasValue_of_isUnsupported hunsupported h

/-- Arrays and objects within others have no value. -/
theorem ofJson_ne_ok_of_deep (h : 1 < document.depth) : ofJson document ≠ .ok v := by
  intro hv
  have hvalue := exists_ofJson_iff.mp ⟨v, hv⟩
  exact absurd (Json.depth_le_one_of_hasValue hvalue) (Nat.not_le.mpr h)

/-- Only a string has the value of a text. -/
theorem isString_of_ofJson (h : ofJson document = .ok (.text s)) : document.IsString := by
  cases Json.ofJson_eq_ok_iff.mp h with
  | text => trivial

end Abi.Value

namespace Command

open Abi

variable {raw : String} {document : Json}

/-- A document that can be read stands for its value. -/
theorem value_of_isDocument (h : Json.IsDocument raw.toList document)
    (hdepth : document.depth ≤ Json.maxDepth) : value raw = ofCall (Value.ofJson document) := by
  rw [value, Json.parse?_eq_some_iff.mpr ⟨h, hdepth⟩]

/-- A text that no document can be read from stands for itself. -/
theorem value_of_not_read (h : ∀ document, Json.IsDocument raw.toList document →
    Json.maxDepth < document.depth) : value raw = .ok (.text raw) := by
  rw [value, Json.parse?_eq_none_iff.mpr h]

/-- A document nested beyond the limit stands for its own text: a text is the document of one value
only, so none can be read from it. -/
theorem value_of_deep (h : Json.IsDocument raw.toList document)
    (hdepth : Json.maxDepth < document.depth) : value raw = .ok (.text raw) := by
  refine value_of_not_read fun other hother => ?_
  rwa [hother.unique h]

theorem exists_ofCall_iff {α : Type} {x : Except CallError α} :
    (∃ a, ofCall x = .ok a) ↔ ∃ a, x = .ok a := by
  simp only [ofCall_eq_ok_iff]

/-- **What a parameter text stands for.**  A document within the limit of nesting, without the
reserved key, stands for its value, and fails if it has none; if it is no string, it never stands
for its own text.  A document beyond the limit has no value, but stands for its own text.  Every
text that is no document stands for itself. -/
theorem value_of_text (raw : String) :
    (∀ document, Json.IsDocument raw.toList document → ¬ document.HasKey Json.reservedKey →
      document.depth ≤ Json.maxDepth →
      value raw = ofCall (Value.ofJson document) ∧
      ((∃ v, value raw = .ok v) ↔ document.HasValue) ∧
      (¬ document.IsString → value raw ≠ .ok (.text raw))) ∧
    (∀ document, Json.IsDocument raw.toList document → Json.maxDepth < document.depth →
      (∀ v, ofCall (Value.ofJson document) ≠ .ok v) ∧ ¬ document.IsString ∧
        value raw = .ok (.text raw)) ∧
    ((∀ document, ¬ Json.IsDocument raw.toList document) → value raw = .ok (.text raw)) := by
  refine ⟨?_, ?_, ?_⟩
  · intro document h _ hdepth
    have hvalue := value_of_isDocument h hdepth
    refine ⟨hvalue, ?_, ?_⟩
    · rw [hvalue, exists_ofCall_iff, Value.exists_ofJson_iff]
    · intro hstring htext
      rw [hvalue, ofCall_eq_ok_iff] at htext
      exact hstring (Value.isString_of_ofJson htext)
  · intro document h hdepth
    have hdeep : 1 < document.depth := Nat.lt_trans (by decide) hdepth
    refine ⟨?_, ?_, value_of_deep h hdepth⟩
    · intro v hv
      exact Value.ofJson_ne_ok_of_deep hdeep (ofCall_eq_ok_iff.mp hv)
    · intro hstring
      rw [Json.depth_eq_zero_of_isString hstring] at hdeep
      contradiction
  · intro h
    exact value_of_not_read fun document hdocument => absurd hdocument (h document)

/-- Nested arrays are refused, even if they agree in their items, and blanks stay part of a text
that is no document. -/
theorem value_of_text_sample :
    value "[[1]]" = .error (.call (.unsupported .mixedArray)) ∧
      value " it's " = .ok (.text " it's ") := by
  constructor
  · have hread : Json.parse? "[[1]]" = some (.array [.array [.number (.ofNat 1)]]) := by rfl
    obtain ⟨hdocument, hdepth⟩ := Json.parse?_eq_some_iff.mp hread
    have hkey : ¬ (Json.array [.array [.number (.ofNat 1)]]).HasKey Json.reservedKey := by
      simp [Json.hasKey_array_iff, Json.not_hasKey_number]
    obtain ⟨hvalue, -, -⟩ := (value_of_text "[[1]]").1 _ hdocument hkey hdepth
    exact hvalue
  · refine (value_of_text " it's ").2.2 ?_
    rintro document ⟨item, hchars, rfl, hwritten⟩
    -- whatever the limit of nesting, no value begins like this
    have hread := Json.value?_chars (Json.isReadAs_of_written hwritten (Nat.le_refl _))
    rw [hchars] at hread
    cases hread

/-! ### A document beyond the limit -/

/-- An empty array with further arrays around it. -/
def nested : Nat → Json
  | 0 => .array []
  | n + 1 => .array [nested n]

def nestedText (n : Nat) : List Char := List.replicate (n + 1) '[' ++ List.replicate (n + 1) ']'

theorem depth_nested (n : Nat) : (nested n).depth = n + 1 := by
  induction n with
  | zero => rfl
  | succ n ih => rw [nested, Json.depth, Json.depthOfItems, Json.depthOfItems, ih, Nat.max_zero]

theorem not_hasKey_nested (n : Nat) (key : String) : ¬ (nested n).HasKey key := by
  induction n with
  | zero => simp [nested, Json.hasKey_array_iff]
  | succ n ih => simp [nested, Json.hasKey_array_iff, ih]

theorem written_nested (n : Nat) : Json.Written (nestedText n) (nested n) := by
  induction n with
  | zero => exact .emptyArray .none
  | succ n ih =>
    have htext : nestedText (n + 1) = '[' :: (nestedText n ++ [']']) := by
      rw [nestedText, nestedText, List.replicate_succ, List.replicate_succ' (a := ']'),
        List.cons_append, List.append_assoc]
    have hitems : ∀ item ∈ [(⟨.none, nestedText n, nested n, .none⟩ : Json.Item)],
        Json.Written item.text item.value := by simpa using ih
    have hwritten := Json.Written.array (by simp) hitems
    simpa [htext, nested, Json.Item.chars, Json.Blanks.none] using hwritten

theorem isDocument_nested (n : Nat) : Json.IsDocument (nestedText n) (nested n) :=
  ⟨⟨.none, nestedText n, nested n, .none⟩, by simp [Json.Item.chars, Json.Blanks.none], rfl,
    written_nested n⟩

/-- **An array nested beyond the limit passes as a text**, although it has no value. -/
theorem value_of_deep_array :
    Json.IsDocument (nestedText 127) (nested 127) ∧ ¬ (nested 127).HasKey Json.reservedKey ∧
      ¬ (nested 127).IsString ∧
      (∀ v, ofCall (Value.ofJson (nested 127)) ≠ .ok v) ∧
      value (String.ofList (nestedText 127)) = .ok (.text (String.ofList (nestedText 127))) := by
  have hdocument := isDocument_nested 127
  refine ⟨hdocument, not_hasKey_nested 127 _, id, ?_, ?_⟩
  · intro v hv
    have hdeep : 1 < (nested 127).depth := by
      rw [depth_nested]
      decide
    exact Value.ofJson_ne_ok_of_deep hdeep (ofCall_eq_ok_iff.mp hv)
  · rw [← String.toList_ofList (l := nestedText 127)] at hdocument
    refine value_of_deep hdocument ?_
    rw [depth_nested]
    decide

end Command

end CallData
