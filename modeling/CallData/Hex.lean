/-
CallData/Hex.lean

Hexadecimal text.

Bytes are written as two lower-case digits each.  Reading takes digits of either case and
works on the bytes of the text, so a position counts bytes; an odd count is found before
any digit is looked at, and of the bytes that are no digit the first is reported.
-/
import CallData.Text.Quoted
import CallData.Text.Utf8

namespace CallData.Hex

/-! ### Writing -/

/-- The two digits of a byte. -/
def byteDigits (b : UInt8) : List Char :=
  [Nat.digitChar (b.toNat / 16), Nat.digitChar (b.toNat % 16)]

def digits (bs : Bytes) : List Char := bs.flatMap byteDigits

/-- The text of a byte string: two lower-case digits for each byte. -/
def encode (bs : Bytes) : String := String.ofList (digits bs)

/-- The text of a byte string after the mark `0x`. -/
def encodeMarked (bs : Bytes) : String := "0x" ++ encode bs

/-! ### Reading -/

/-- Why a text is not hexadecimal. -/
inductive Error where
  | oddLength
  /-- The byte at this position is no digit. -/
  | badDigit (byte : UInt8) (position : Nat)
  deriving DecidableEq, Repr

def Error.message : Error → String
  | .oddLength => "Odd number of digits"
  | .badDigit byte position =>
    "Invalid character " ++ Text.quotedByte byte ++ " at position " ++ Nat.repr position

/-- The value of an ASCII hexadecimal digit. -/
def digitValue? (b : UInt8) : Option Nat :=
  let n := b.toNat
  if 0x30 ≤ n ∧ n ≤ 0x39 then some (n - 0x30)
  else if 0x41 ≤ n ∧ n ≤ 0x46 then some (n - 0x41 + 10)
  else if 0x61 ≤ n ∧ n ≤ 0x66 then some (n - 0x61 + 10)
  else none

/-- The value of the digit at a position. -/
def digitAt (position : Nat) (b : UInt8) : Except Error Nat :=
  match digitValue? b with
  | some n => .ok n
  | none => .error (.badDigit b position)

/-- The bytes that pairs of digits spell, the first digit standing at `position`. -/
def decodePairs (position : Nat) : Bytes → Except Error Bytes
  | high :: low :: rest => do
    let h ← digitAt position high
    let l ← digitAt (position + 1) low
    let bs ← decodePairs (position + 2) rest
    return UInt8.ofNat (16 * h + l) :: bs
  | _ => .ok []

/-- The bytes that a hexadecimal text spells. -/
def decode (text : Bytes) : Except Error Bytes :=
  if text.length % 2 = 1 then .error .oddLength else decodePairs 0 text

/-- The text without one leading `0x`. -/
def unmarked : Bytes → Bytes
  | 0x30 :: 0x78 :: rest => rest
  | text => text

/-! ### Reading what was written -/

theorem digitValue?_digitChar {n : Nat} (h : n < 16) :
    digitValue? (UInt8.ofNat (Nat.digitChar n).toNat) = some n := by
  revert n
  decide

theorem toNat_digitChar_lt {n : Nat} (h : n < 16) : (Nat.digitChar n).toNat < 128 := by
  revert n
  decide

theorem exists_of_mem_digits {bs : Bytes} {c : Char} (h : c ∈ digits bs) :
    ∃ n < 16, c = Nat.digitChar n := by
  obtain ⟨b, -, hc⟩ := List.mem_flatMap.mp h
  have hb := b.toNat_lt
  simp only [byteDigits, List.mem_cons, List.not_mem_nil, or_false] at hc
  rcases hc with rfl | rfl
  · exact ⟨b.toNat / 16, by omega, rfl⟩
  · exact ⟨b.toNat % 16, by omega, rfl⟩

theorem toNat_lt_of_mem_digits {bs : Bytes} {c : Char} (h : c ∈ digits bs) : c.toNat < 128 := by
  obtain ⟨n, hn, rfl⟩ := exists_of_mem_digits h
  exact toNat_digitChar_lt hn

theorem utf8_encode (bs : Bytes) :
    Text.utf8 (encode bs) = (digits bs).map fun c => UInt8.ofNat c.toNat :=
  Text.utf8_ofList_of_ascii _ fun _ hc => toNat_lt_of_mem_digits hc

@[simp] theorem length_digits (bs : Bytes) : (digits bs).length = 2 * bs.length := by
  induction bs with
  | nil => rfl
  | cons b bs ih =>
    simp only [digits, List.flatMap_cons, List.length_append, List.length_cons] at ih ⊢
    rw [ih]
    simp [byteDigits]
    omega

theorem decodePairs_digits (bs : Bytes) (position : Nat) :
    decodePairs position ((digits bs).map fun c => UInt8.ofNat c.toNat) = .ok bs := by
  induction bs generalizing position with
  | nil => rfl
  | cons b bs ih =>
    have hb := b.toNat_lt
    have high := digitValue?_digitChar (show b.toNat / 16 < 16 by omega)
    have low := digitValue?_digitChar (show b.toNat % 16 < 16 by omega)
    have hsum : UInt8.ofNat (16 * (b.toNat / 16) + b.toNat % 16) = b := by
      rw [Nat.div_add_mod]
      simp
    have step : decodePairs position ((digits (b :: bs)).map fun c => UInt8.ofNat c.toNat) =
        (do
          let h ← digitAt position (UInt8.ofNat (Nat.digitChar (b.toNat / 16)).toNat)
          let l ← digitAt (position + 1) (UInt8.ofNat (Nat.digitChar (b.toNat % 16)).toNat)
          let rest ← decodePairs (position + 2) ((digits bs).map fun c => UInt8.ofNat c.toNat)
          return UInt8.ofNat (16 * h + l) :: rest) := rfl
    rw [step, ih, digitAt, high, digitAt, low]
    show Except.ok (UInt8.ofNat (16 * (b.toNat / 16) + b.toNat % 16) :: bs) = Except.ok (b :: bs)
    rw [hsum]

/-- Reading takes back what writing gives. -/
theorem decode_encode (bs : Bytes) : decode (Text.utf8 (encode bs)) = .ok bs := by
  rw [utf8_encode, decode, if_neg (by simp), decodePairs_digits]

@[simp] theorem unmarked_encodeMarked (bs : Bytes) :
    unmarked (Text.utf8 (encodeMarked bs)) = Text.utf8 (encode bs) := by
  rw [encodeMarked, Text.utf8_append]
  rfl

end CallData.Hex
