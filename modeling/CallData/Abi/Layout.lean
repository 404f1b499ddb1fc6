/-
CallData/Abi/Layout.lean

The head/tail layout of encoded parameters.

A list of entries is laid out as one head word per entry, followed by the tails of the
dynamic entries in order.  A static entry is its head word; the head word of a dynamic entry
is the offset of its tail from the first head word.  An array is its element count followed
by such a layout of its own, so its offsets count from the word after the count.

Sizes and offsets are 64-bit numbers, and their arithmetic is modulo 2^64; a list in memory
is always short enough for that not to show.
-/
import CallData.Abi.Param
import CallData.Text.Utf8

namespace CallData.Abi

/-! ### Sizes -/

/-- The number of elements of a list, as a size of the layout. -/
def size (xs : List α) : UInt64 := UInt64.ofNat xs.length

/-- The least multiple of 32 that is not below `len`. -/
def paddedLength (len : UInt64) : UInt64 :=
  (len / 32 + if len % 32 = 0 then 0 else 1) * 32

/-! ### Entries -/

/-- A value as it takes part in a layout. -/
inductive Entry where
  /-- A value that is its own head word. -/
  | static (word : Word)
  /-- A value that stands in the tail. -/
  | dynamic (tail : Bytes)
  deriving DecidableEq

namespace Layout

def headSize (entries : List Entry) : UInt64 := size entries * 32

/-- The head words of a list of entries whose first tail stands at `offset`. -/
def heads (offset : UInt64) : List Entry → Bytes
  | [] => []
  | .static word :: rest => word.toBytes ++ heads offset rest
  | .dynamic tail :: rest => (Word.ofSize offset).toBytes ++ heads (offset + size tail) rest

def tails : List Entry → Bytes
  | [] => []
  | .static _ :: rest => tails rest
  | .dynamic tail :: rest => tail ++ tails rest

/-- The layout of a list of entries: the head words, then the tails. -/
def block (entries : List Entry) : Bytes :=
  heads (headSize entries) entries ++ tails entries

/-- A byte string filled up with zero bytes to a whole number of words. -/
def padded (data : Bytes) : Bytes :=
  data ++ List.replicate (paddedLength (size data) - size data).toNat 0

/-- The tail of a byte string: its length, then its bytes in whole words. -/
def payload (data : Bytes) : Bytes :=
  (Word.ofSize (size data)).toBytes ++ padded data

/-- The tail of a list of byte strings: its count, then the layout of its elements. -/
def list (items : List Bytes) : Bytes :=
  (Word.ofSize (size items)).toBytes ++ block (items.map fun item => .dynamic (payload item))

end Layout

/-! ### Encoding -/

/-- How a value takes part in a layout. -/
def Value.entry : Value → Entry
  | .uint _ x => .static x
  | .bytes data => .dynamic (Layout.payload data)
  | .text content => .dynamic (Layout.payload (Text.utf8 content))
  | .texts items => .dynamic (Layout.list (items.map Text.utf8))
  | .blobs items => .dynamic (Layout.list items)

/-- The encoding of a list of parameters. -/
def encode (params : List Param) : Bytes :=
  Layout.block (params.map fun p => p.value.entry)

end CallData.Abi
