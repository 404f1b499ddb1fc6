/-
CallData/Selector.lean

The four bytes that name a function in call data: the first four of the digest of its
signature.  As text a selector is eight hexadecimal digits, after an optional `0x`.
-/
import CallData.Digest

namespace CallData

/-- A function selector. -/
structure Selector where
  /-- The four bytes, in digest order. -/
  bytes : Bytes
  length_bytes : bytes.length = 4
  deriving DecidableEq

namespace Selector

/-- The selector that a digest begins with. -/
def ofDigest (d : Digest) : Selector where
  bytes := d.bytes.take 4
  length_bytes := by simp [d.length_bytes]

/-- The selector in hexadecimal, after `0x`. -/
def toHex (s : Selector) : String := Hex.encodeMarked s.bytes

/-- The selector in hexadecimal, with its kind in front. -/
def tagged (s : Selector) : String := "Selector(" ++ s.toHex ++ ")"

/-- Why a text is not a selector. -/
inductive Error where
  | badHex (reason : Hex.Error)
  /-- The text spells this number of bytes, and not four. -/
  | badLength (count : Nat)
  deriving DecidableEq, Repr

def Error.message : Error → String
  | .badHex reason => "invalid hex string: " ++ reason.message
  | .badLength count =>
    "invalid selector length: expected 4 bytes, got " ++ Nat.repr count

/-- The selector with the given bytes, of which there have to be four. -/
def ofBytes (bs : Bytes) : Except Error Selector :=
  if h : bs.length = 4 then .ok ⟨bs, h⟩ else .error (.badLength bs.length)

/-- Reads a selector: hexadecimal digits of either case, after an optional `0x`. -/
def ofHex (text : String) : Except Error Selector :=
  match Hex.decode (Hex.unmarked (Text.utf8 text)) with
  | .error reason => .error (.badHex reason)
  | .ok bs => ofBytes bs

/-- A selector is read back from its text. -/
theorem ofHex_toHex (s : Selector) : ofHex s.toHex = .ok s := by
  simp [ofHex, toHex, Hex.decode_encode, ofBytes, s.length_bytes]

end Selector

end CallData
