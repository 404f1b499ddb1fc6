/-
CallData/Digest.lean

The 32-byte digest that a hash function gives, and hash functions as values.
-/
import CallData.Hex

namespace CallData

/-- A digest of 32 bytes. -/
structure Digest where
  /-- The bytes, in the order in which the hash function gives them. -/
  bytes : Bytes
  length_bytes : bytes.length = 32
  deriving DecidableEq

/-- A hash function: a digest for every message. -/
abbrev Hasher := Bytes → Digest

namespace Digest

/-- The digest in hexadecimal, after `0x`. -/
def toHex (d : Digest) : String := Hex.encodeMarked d.bytes

/-- The digest in hexadecimal, with its kind in front. -/
def tagged (d : Digest) : String := "H256(" ++ d.toHex ++ ")"

end Digest

end CallData
