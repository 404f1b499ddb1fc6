/-
CallData/Word.lean

The 256-bit word, the unit of the call-data layout.

A word is written as 32 bytes, the most significant first.  A shorter byte string is read
as the number it spells, so leading zero bytes may be left out.
-/
import CallData.Bytes

namespace CallData

/-- An unsigned 256-bit number. -/
abbrev Word := BitVec 256

namespace Word

def size : Nat := 32

/-- The 32 bytes of a word, the most significant first. -/
def toBytes (w : Word) : Bytes := Bytes.ofNat size w.toNat

/-- The number that `bs` spells, modulo 2^256. -/
def ofBytes (bs : Bytes) : Word := BitVec.ofNat 256 bs.toNat

/-- The word that holds a size of the layout. -/
def ofSize (n : UInt64) : Word := BitVec.ofNat 256 n.toNat

/-- The decimal digits of a word, without leading zeros. -/
def decimal (w : Word) : String := Nat.repr w.toNat

@[simp] theorem length_toBytes (w : Word) : w.toBytes.length = 32 := by
  simp [toBytes, size]

end Word

end CallData
