/-
CallData/Proofs/Abi/Exact.lean

The layout in exact numbers.

The encoder adds up 64-bit sizes as it goes along.  Here the same layout is written down with
numbers that have no bound, and with the place of each entry as a sum over the entries before
it: `offsetOf pieces i` is the place of piece `i` behind one word for each piece.  One function
serves both frames, the parameters of a call (`headWords`) and the elements of an array
(`listEntry`); the frames differ in what their places count from.

As long as what the encoder writes is shorter than 2^64 bytes its sizes are exact
(`Layout.block_eq`), and an encoding is the head words followed by the tail entries
(`encode_eq`).
-/
import CallData.Abi.Layout
import CallData.Proofs.Bytes

namespace CallData.Abi

open Bytes (sizeBefore)

/-! ### Exact places -/

/-- The 32 bytes of a number, the most significant first. -/
def wordOf (n : Nat) : Bytes := Bytes.ofNat 32 n

@[simp] theorem length_wordOf (n : Nat) : (wordOf n).length = 32 := by
  simp [wordOf]

theorem toNat_wordOf {n : Nat} (h : n < 2 ^ 256) : (wordOf n).toNat = n := by
  rw [wordOf, Bytes.toNat_ofNat]
  exact Nat.mod_eq_of_lt h

theorem toBytes_eq_wordOf (w : Word) : w.toBytes = wordOf w.toNat := rfl

/-- The least multiple of 32 that is not below `n`. -/
def roundUp (n : Nat) : Nat := (n + 31) / 32 * 32

theorem le_roundUp (n : Nat) : n ≤ roundUp n := by
  unfold roundUp
  omega

theorem dvd_roundUp (n : Nat) : 32 ∣ roundUp n := Nat.dvd_mul_left 32 _

/-- The place of piece `i` when one word for each piece comes first, and then the pieces. -/
def offsetOf (pieces : List Bytes) (i : Nat) : Nat := 32 * pieces.length + sizeBefore pieces i

/-! ### Exact entries -/

/-- The entry of a byte string: its length, its bytes, and zero bytes up to a whole word. -/
def payloadEntry (data : Bytes) : Bytes :=
  wordOf data.length ++ data ++ List.replicate (roundUp data.length - data.length) 0

/-- One word for each of some byte strings: the place of its entry, counted from the first of
these words. -/
def placeWords (items : List Bytes) : List Bytes :=
  items.mapIdx fun j _ => wordOf (offsetOf (items.map payloadEntry) j)

/-- The entry of a list of byte strings: their count, then the places of their entries, then
the entries. -/
def listEntry (items : List Bytes) : Bytes :=
  wordOf items.length ++ ((placeWords items).flatten ++ (items.map payloadEntry).flatten)

/-- The tail entry of a value; an integer has none. -/
def Value.tailEntry : Value → Bytes
  | .uint _ _ => []
  | .bytes data => payloadEntry data
  | .text content => payloadEntry (Text.utf8 content)
  | .texts items => listEntry (items.map Text.utf8)
  | .blobs items => listEntry items

/-- The head word of a value whose tail entry stands at `place`. -/
def Value.headWord (place : Nat) : Value → Bytes
  | .uint _ x => wordOf x.toNat
  | _ => wordOf place

def tailEntries (params : List Param) : List Bytes := params.map (·.value.tailEntry)

def headWords (params : List Param) : List Bytes :=
  params.mapIdx fun i p => p.value.headWord (offsetOf (tailEntries params) i)

/-! ### Entries of the encoder -/

def Entry.tail : Entry → Bytes
  | .static _ => []
  | .dynamic tail => tail

def Entry.headWord (place : Nat) : Entry → Bytes
  | .static word => wordOf word.toNat
  | .dynamic _ => wordOf place

theorem mapIdx_map {α β γ : Type} (f : α → β) (g : Nat → β → γ) (xs : List α) :
    (xs.map f).mapIdx g = xs.mapIdx fun i x => g i (f x) := by
  induction xs generalizing g with
  | nil => rfl
  | cons x xs ih => rw [List.map_cons, List.mapIdx_cons, List.mapIdx_cons, ih]

/-! ### 64-bit sizes -/

theorem toBytes_ofSize (n : UInt64) : (Word.ofSize n).toBytes = wordOf n.toNat := by
  have h256 : n.toNat < 2 ^ 256 := Nat.lt_of_lt_of_le n.toNat_lt (by decide)
  rw [Word.ofSize, toBytes_eq_wordOf, BitVec.toNat_ofNat, Nat.mod_eq_of_lt h256]

theorem toBytes_ofSize_ofNat {n : Nat} (h : n < 2 ^ 64) :
    (Word.ofSize (UInt64.ofNat n)).toBytes = wordOf n := by
  rw [toBytes_ofSize, UInt64.toNat_ofNat_of_lt' h]

/-- Rounding a 64-bit size up is exact modulo 2^64. -/
theorem toNat_paddedLength (len : UInt64) :
    (paddedLength len).toNat = roundUp len.toNat % 2 ^ 64 := by
  -- the test for a remainder is made on 64-bit numbers but means the same
  have hrem : len % 32 = 0 ↔ len.toNat % 32 = 0 := by
    rw [← UInt64.toNat_inj]
    simp
  have hlt := len.toNat_lt
  unfold paddedLength roundUp
  by_cases h : len.toNat % 32 = 0
  · simp [hrem.mpr h]
    omega
  · simp [mt hrem.mp h]
    omega

/-! ### Frames -/

namespace Layout

theorem tails_eq (entries : List Entry) : tails entries = (entries.map Entry.tail).flatten := by
  induction entries with
  | nil => rfl
  | cons entry rest ih => cases entry <;> simp [tails, Entry.tail, ih]

@[simp] theorem length_heads (offset : UInt64) (entries : List Entry) :
    (heads offset entries).length = 32 * entries.length := by
  induction entries generalizing offset with
  | nil => rfl
  | cons entry rest ih =>
    have hlen (word : Word) (offset : UInt64) :
        (word.toBytes ++ heads offset rest).length = 32 * (rest.length + 1) := by
      rw [List.length_append, Word.length_toBytes, ih, Nat.mul_add_one, Nat.add_comm]
    cases entry with
    | static word => exact hlen word offset
    | dynamic tail => exact hlen _ _

/-- The running offset is exact at every entry as long as the tails end below 2^64. -/
theorem heads_eq {entries : List Entry} {start : Nat}
    (short : start + (tails entries).length < 2 ^ 64) :
    heads (UInt64.ofNat start) entries =
      (entries.mapIdx fun i entry =>
        entry.headWord (start + sizeBefore (entries.map Entry.tail) i)).flatten := by
  -- along the entries `start` moves past the tails that are already placed
  induction entries generalizing start with
  | nil => rfl
  | cons entry rest ih =>
    cases entry with
    | static word =>
      rw [heads, ih short, toBytes_eq_wordOf]
      simp [List.mapIdx_cons, Entry.headWord, Entry.tail]
    | dynamic tail =>
      have hrest : start + tail.length + (tails rest).length < 2 ^ 64 := by
        simp only [tails, List.length_append] at short
        omega
      rw [heads, size, ← UInt64.ofNat_add, ih hrest, toBytes_ofSize_ofNat (by omega)]
      simp [List.mapIdx_cons, Entry.headWord, Entry.tail, Nat.add_assoc]

/-- **A layout in exact numbers.**  What is written is shorter than 2^64 bytes, so no 64-bit
offset in it wraps. -/
theorem block_eq {entries : List Entry} (short : (block entries).length < 2 ^ 64) :
    block entries =
      (entries.mapIdx fun i entry =>
          entry.headWord (offsetOf (entries.map Entry.tail) i)).flatten ++
        (entries.map Entry.tail).flatten := by
  have hsize : headSize entries = UInt64.ofNat (32 * entries.length) := by
    rw [headSize, size, Nat.mul_comm, UInt64.ofNat_mul]
    rfl
  have hshort : 32 * entries.length + (tails entries).length < 2 ^ 64 := by
    simpa [block] using short
  rw [block, hsize, heads_eq hshort, tails_eq]
  simp [offsetOf]

theorem length_tail_le {entries : List Entry} {entry : Entry} (h : entry ∈ entries) :
    entry.tail.length ≤ (block entries).length := by
  have hsub := List.sublist_flatten_of_mem (List.mem_map_of_mem (f := Entry.tail) h)
  rw [← tails_eq] at hsub
  simp only [block, List.length_append]
  exact Nat.le_add_left_of_le hsub.length_le

/-! ### Tail entries -/

theorem padded_eq {data : Bytes} (short : (padded data).length < 2 ^ 64) :
    padded data = data ++ List.replicate (roundUp data.length - data.length) 0 := by
  have hdata : data.length < 2 ^ 64 := by
    simp only [padded, List.length_append] at short
    omega
  have hsize : (size data).toNat = data.length := UInt64.toNat_ofNat_of_lt' hdata
  -- where rounding up leaves the 64 bits, the fill would make the data 2^64 bytes long
  have hfill :
      (paddedLength (size data) - size data).toNat = roundUp data.length - data.length := by
    have hle := le_roundUp data.length
    simp only [padded, List.length_append, List.length_replicate] at short
    rw [UInt64.toNat_sub, toNat_paddedLength, hsize] at short ⊢
    unfold roundUp at *
    omega
  rw [padded, hfill]

theorem payload_eq {data : Bytes} (short : (payload data).length < 2 ^ 64) :
    payload data = payloadEntry data := by
  have hpadded : (padded data).length < 2 ^ 64 := by
    simp only [payload, List.length_append] at short
    omega
  have hdata : data.length < 2 ^ 64 := by
    simp only [padded, List.length_append] at hpadded
    omega
  rw [payload, padded_eq hpadded, size, toBytes_ofSize_ofNat hdata, payloadEntry, List.append_assoc]

theorem list_eq {items : List Bytes} (short : (list items).length < 2 ^ 64) :
    list items = listEntry items := by
  have hblock : (block (items.map fun item => .dynamic (payload item))).length < 2 ^ 64 := by
    simp only [list, List.length_append] at short
    omega
  have hcount : items.length < 2 ^ 64 := by
    simp only [block, List.length_append, length_heads, List.length_map] at hblock
    omega
  -- each element is shorter than the whole list, so its own sizes are exact as well
  have htails : ((items.map fun item => Entry.dynamic (payload item)).map Entry.tail) =
      items.map payloadEntry := by
    rw [List.map_map]
    apply List.map_congr_left
    intro item hitem
    have hmem : Entry.dynamic (payload item) ∈ items.map fun item => Entry.dynamic (payload item) :=
      List.mem_map_of_mem hitem
    have hle := length_tail_le hmem
    rw [Entry.tail] at hle
    exact payload_eq (by omega)
  rw [list, size, toBytes_ofSize_ofNat hcount, block_eq hblock, htails, mapIdx_map]
  simp only [Entry.headWord, listEntry, placeWords]

end Layout

theorem Value.tail_entry {v : Value} (short : v.entry.tail.length < 2 ^ 64) :
    v.entry.tail = v.tailEntry := by
  cases v with
  | uint width x => rfl
  | bytes data => exact Layout.payload_eq short
  | text content => exact Layout.payload_eq short
  | texts items => exact Layout.list_eq short
  | blobs items => exact Layout.list_eq short

theorem Value.headWord_entry (v : Value) (place : Nat) :
    v.entry.headWord place = v.headWord place := by
  cases v <;> rfl

/-- **The encoding is the head words followed by the tail entries.** -/
theorem encode_eq {params : List Param} (short : (encode params).length < 2 ^ 64) :
    encode params = (headWords params).flatten ++ (tailEntries params).flatten := by
  have htails : (params.map fun p => p.value.entry).map Entry.tail = tailEntries params := by
    rw [List.map_map]
    apply List.map_congr_left
    intro p hp
    have hmem : p.value.entry ∈ params.map fun p => p.value.entry := List.mem_map_of_mem hp
    exact Value.tail_entry (Nat.lt_of_le_of_lt (Layout.length_tail_le hmem) short)
  rw [encode, Layout.block_eq short, htails, mapIdx_map]
  simp only [Value.headWord_entry, headWords]

end CallData.Abi
