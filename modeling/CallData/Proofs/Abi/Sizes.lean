/-
CallData/Proofs/Abi/Sizes.lean

No size of the encoder wraps.

The encoder computes with sizes of 64 bits: in every frame the size of the head and, entry by entry,
the place of the next tail; for a list its count; for a byte string its length, and the length
filled up to whole words.  `Layout.offsetAt` is the place that a frame has reached behind its first
entries, as the encoder goes on with it (`Layout.heads_append`).

A size is exact within a bound if it is the number that it stands for and that number is within the
bound (`IsExact`).  `ExactFrame`, `ExactBytes`, `ExactList` and `Value.HasExactSizes` say so of all
sizes that are computed for a frame, a byte string, a list and a value, each in terms of the ones
before, as the encoder calls itself.  Each of these numbers is at most the length of what is written
from it, and what is written stands within the encoding, so the length of the encoding bounds them
all.

Main result: `sizes_exact`.
-/
import CallData.Proofs.Abi.Reader
import Mathlib.Order.Bounds.Defs

namespace CallData.Abi

open Bytes (HoldsAt sizeBefore)

/-! ### Whole words -/

theorem isLeast_roundUp (n : Nat) : IsLeast {m | 32 ∣ m ∧ n ≤ m} (roundUp n) := by
  refine ⟨⟨dvd_roundUp n, le_roundUp n⟩, ?_⟩
  rintro m ⟨⟨words, rfl⟩, hle⟩
  unfold roundUp
  omega

theorem roundUp_lt (n : Nat) : roundUp n < n + 32 := by
  unfold roundUp
  omega

theorem roundUp_mono {m n : Nat} (h : m ≤ n) : roundUp m ≤ roundUp n := by
  unfold roundUp
  omega

theorem roundUp_roundUp (n : Nat) : roundUp (roundUp n) = roundUp n := by
  unfold roundUp
  omega

/-- Up to the last whole word of 64 bits, rounding up is exact. -/
theorem toNat_paddedLength_of_le {len : UInt64} (h : len.toNat ≤ 2 ^ 64 - 32) :
    (paddedLength len).toNat = roundUp len.toNat := by
  rw [toNat_paddedLength]
  unfold roundUp
  omega

/-! ### Places in a frame -/

namespace Layout

/-- The place for the next tail, behind an entry for which it is `offset`. -/
def advance (offset : UInt64) : Entry → UInt64
  | .static _ => offset
  | .dynamic tail => offset + size tail

/-- The place for the next tail behind the first `i` entries of a frame, as the encoder has it. -/
def offsetAt (entries : List Entry) (i : Nat) : UInt64 :=
  (entries.take i).foldl advance (headSize entries)

variable {entries : List Entry} {i : Nat} {tail : Bytes}

/-- Behind some entries the encoder goes on with the place that they lead to. -/
theorem heads_append (offset : UInt64) (before after : List Entry) :
    heads offset (before ++ after) =
      heads offset before ++ heads (before.foldl advance offset) after := by
  induction before generalizing offset with
  | nil => rfl
  | cons entry before ih =>
    cases entry with
    | static word =>
      rw [List.cons_append, heads, heads, ih, List.append_assoc]
      rfl
    | dynamic tail =>
      rw [List.cons_append, heads, heads, ih, List.append_assoc]
      rfl

/-- The head word of a dynamic entry is the place that the entries before it lead to. -/
theorem holdsAt_heads_dynamic (offset : UInt64) (before after : List Entry) (tail : Bytes) :
    HoldsAt (heads offset (before ++ .dynamic tail :: after)) (32 * before.length)
      (Word.ofSize (before.foldl advance offset)).toBytes := by
  rw [heads_append, heads, ← length_heads offset before]
  exact ((Bytes.holdsAt_self _).append_right _).append_left _

theorem holdsAt_block_offsetAt (h : entries[i]? = some (.dynamic tail)) :
    HoldsAt (block entries) (32 * i) (Word.ofSize (offsetAt entries i)).toBytes := by
  obtain ⟨hi, hentry⟩ := List.getElem?_eq_some_iff.mp h
  have hsplit : entries.take i ++ .dynamic tail :: entries.drop (i + 1) = entries := by
    rw [← hentry, ← List.drop_eq_getElem_cons hi, List.take_append_drop]
  have hword :=
    holdsAt_heads_dynamic (headSize entries) (entries.take i) (entries.drop (i + 1)) tail
  rw [hsplit, List.length_take_of_le (Nat.le_of_lt hi)] at hword
  exact hword.append_right _

/-- Modulo 2^64 the place is the size of the head and of the tails before it. -/
theorem offsetAt_eq (entries : List Entry) (i : Nat) :
    offsetAt entries i = UInt64.ofNat (offsetOf (entries.map Entry.tail) i) := by
  have hfold (start : Nat) (before : List Entry) : before.foldl advance (UInt64.ofNat start) =
      UInt64.ofNat (start + ((before.map Entry.tail).map List.length).sum) := by
    induction before generalizing start with
    | nil => rfl
    | cons entry before ih =>
      have hadvance : advance (UInt64.ofNat start) entry =
          UInt64.ofNat (start + entry.tail.length) := by
        cases entry with
        | static word => rfl
        | dynamic tail => exact (UInt64.ofNat_add start tail.length).symm
      rw [List.foldl_cons, hadvance, ih, List.map_cons, List.map_cons, List.sum_cons, Nat.add_assoc]
  have hhead : headSize entries = UInt64.ofNat (32 * entries.length) := by
    rw [headSize, size, Nat.mul_comm, UInt64.ofNat_mul]
    rfl
  rw [offsetAt, hhead, hfold, offsetOf, sizeBefore, List.length_map, List.map_take]

theorem length_block (entries : List Entry) :
    (block entries).length = 32 * entries.length + (entries.map Entry.tail).flatten.length := by
  rw [block, List.length_append, length_heads, tails_eq]

/-- Every place that a frame reaches is within the frame. -/
theorem offsetOf_le (entries : List Entry) (i : Nat) :
    offsetOf (entries.map Entry.tail) i ≤ (block entries).length := by
  have hsplit :
      ((entries.map Entry.tail).take i).flatten ++ ((entries.map Entry.tail).drop i).flatten =
        (entries.map Entry.tail).flatten := by
    rw [← List.flatten_append, List.take_append_drop]
  rw [length_block, offsetOf, sizeBefore, ← List.length_flatten, List.length_map, ← hsplit,
    List.length_append]
  omega

/-- A tail with some content begins before the end of the frame. -/
theorem offsetOf_lt (h : entries[i]? = some (.dynamic tail)) (hne : tail ≠ []) :
    offsetOf (entries.map Entry.tail) i < (block entries).length := by
  have hpiece : (entries.map Entry.tail)[i]? = some tail := by
    rw [List.getElem?_map, h]
    rfl
  have hle := (Bytes.holdsAt_flatten hpiece).length_le
  have hpos : 0 < tail.length := List.length_pos_iff.mpr hne
  rw [length_block, offsetOf, List.length_map]
  omega

end Layout

/-! ### Exact sizes -/

/-- The size that is computed is the number that it stands for, which is within the bound. -/
structure IsExact (computed : UInt64) (number bound : Nat) : Prop where
  toNat_eq : computed.toNat = number
  le : number ≤ bound

/-- All sizes of a frame are exact, and each place that is written is in a word that holds it and
points into the frame. -/
structure ExactFrame (bound : Nat) (entries : List Entry) : Prop where
  headSize : IsExact (Layout.headSize entries) (32 * entries.length) bound
  offset : ∀ i, IsExact (Layout.offsetAt entries i) (offsetOf (entries.map Entry.tail) i) bound
  written : ∀ i tail, entries[i]? = some (.dynamic tail) →
    HoldsAt (Layout.block entries) (32 * i) (Word.ofSize (Layout.offsetAt entries i)).toBytes
  word : ∀ i tail, entries[i]? = some (.dynamic tail) →
    Reader.number? (Layout.block entries) (32 * i) = some (offsetOf (entries.map Entry.tail) i)
  inside : ∀ i tail, entries[i]? = some (.dynamic tail) →
    offsetOf (entries.map Entry.tail) i < (Layout.block entries).length

/-- The sizes of a byte string are exact, and its length is in a word that holds it. -/
structure ExactBytes (bound : Nat) (data : Bytes) : Prop where
  length : IsExact (size data) data.length bound
  padded : IsExact (paddedLength (size data)) (roundUp data.length) bound
  word : Reader.number? (Layout.payload data) 0 = some data.length

/-- The sizes of a list of byte strings are exact: its count, which is in a word that holds it, and
all sizes of its frame and of its elements. -/
structure ExactList (bound : Nat) (items : List Bytes) : Prop where
  count : IsExact (size items) items.length bound
  word : Reader.number? (Layout.list items) 0 = some items.length
  frame : ExactFrame bound (items.map fun item => .dynamic (Layout.payload item))
  elements : ∀ item ∈ items, ExactBytes bound item

/-- All sizes that are computed for a value are exact.  An integer needs none. -/
def Value.HasExactSizes (bound : Nat) : Value → Prop
  | .uint _ _ => True
  | .bytes data => ExactBytes bound data
  | .text content => ExactBytes bound (Text.utf8 content)
  | .texts items => ExactList bound (items.map Text.utf8)
  | .blobs items => ExactList bound items

section Exact

variable {bound n : Nat} {entries : List Entry} {data : Bytes} {items : List Bytes} {v : Value}

theorem isExact_ofNat (h : n ≤ bound) (short : bound < 2 ^ 64) : IsExact (UInt64.ofNat n) n bound :=
  ⟨UInt64.toNat_ofNat_of_lt' (Nat.lt_of_le_of_lt h short), h⟩

/-- A size that is exact is read back from its word. -/
theorem IsExact.number? {computed : UInt64} {buf : Bytes} {start : Nat}
    (h : IsExact computed n bound) (hword : HoldsAt buf start (Word.ofSize computed).toBytes) :
    Reader.number? buf start = some n := by
  have hlt : n < 2 ^ 256 := by
    rw [← h.toNat_eq]
    exact Nat.lt_trans computed.toNat_lt (by decide)
  rw [toBytes_ofSize, h.toNat_eq] at hword
  exact Reader.number?_of_holdsAt hword hlt

theorem exactFrame (hle : (Layout.block entries).length ≤ bound) (short : bound < 2 ^ 64)
    (hne : ∀ tail, .dynamic tail ∈ entries → tail ≠ []) : ExactFrame bound entries := by
  have hoffset (i : Nat) :
      IsExact (Layout.offsetAt entries i) (offsetOf (entries.map Entry.tail) i) bound := by
    rw [Layout.offsetAt_eq]
    exact isExact_ofNat (Nat.le_trans (Layout.offsetOf_le entries i) hle) short
  refine ⟨?_, hoffset, ?_, ?_, ?_⟩
  · -- the head is what the frame has placed in front of its first entry
    have hhead := hoffset 0
    rw [offsetOf, Bytes.sizeBefore_zero, List.length_map] at hhead
    exact hhead
  · intro i tail h
    exact Layout.holdsAt_block_offsetAt h
  · intro i tail h
    exact (hoffset i).number? (Layout.holdsAt_block_offsetAt h)
  · intro i tail h
    exact Layout.offsetOf_lt h (hne tail (List.mem_of_getElem? h))

theorem Layout.payload_ne_nil (data : Bytes) : payload data ≠ [] := by
  apply List.ne_nil_of_length_pos
  rw [payload, List.length_append, Word.length_toBytes]
  omega

theorem exactBytes (hle : (Layout.payload data).length ≤ bound) (short : bound < 2 ^ 64) :
    ExactBytes bound data := by
  have hlength : (Layout.payload data).length = 32 + roundUp data.length := by
    rw [Layout.payload_eq (Nat.lt_of_le_of_lt hle short), length_payloadEntry]
  have hround := le_roundUp data.length
  have hsize : IsExact (size data) data.length bound := isExact_ofNat (by omega) short
  refine ⟨hsize, ⟨?_, by omega⟩, hsize.number? ((Bytes.holdsAt_self _).append_right _)⟩
  -- with its word the filled-up length is still below 2^64
  rw [toNat_paddedLength, hsize.toNat_eq]
  exact Nat.mod_eq_of_lt (by omega)

theorem exactList (hle : (Layout.list items).length ≤ bound) (short : bound < 2 ^ 64) :
    ExactList bound items := by
  have hlength : (Layout.list items).length =
      32 + (Layout.block (items.map fun item => .dynamic (Layout.payload item))).length := by
    rw [Layout.list, List.length_append, Word.length_toBytes]
  have hframe : ExactFrame bound (items.map fun item => .dynamic (Layout.payload item)) := by
    refine exactFrame (by omega) short fun tail htail => ?_
    obtain ⟨item, -, hitem⟩ := List.mem_map.mp htail
    rw [← Entry.dynamic.inj hitem]
    exact Layout.payload_ne_nil item
  have hcount : IsExact (size items) items.length bound := by
    have hhead := hframe.headSize.le
    rw [List.length_map] at hhead
    exact isExact_ofNat (by omega) short
  refine ⟨hcount, hcount.number? ((Bytes.holdsAt_self _).append_right _), hframe, ?_⟩
  intro item hitem
  have hmem : Entry.dynamic (Layout.payload item) ∈
      items.map fun item => .dynamic (Layout.payload item) :=
    List.mem_map_of_mem hitem
  have hitem := Layout.length_tail_le hmem
  rw [Entry.tail] at hitem
  exact exactBytes (by omega) short

theorem Value.hasExactSizes (hle : v.entry.tail.length ≤ bound) (short : bound < 2 ^ 64) :
    v.HasExactSizes bound := by
  cases v with
  | uint width x => trivial
  | bytes data => exact exactBytes hle short
  | text content => exact exactBytes hle short
  | texts items => exact exactList hle short
  | blobs items => exact exactList hle short

/-- The tail of a value is never empty. -/
theorem Value.tail_ne_nil {tail : Bytes} (h : v.entry = .dynamic tail) : tail ≠ [] := by
  have hlist (items : List Bytes) : Layout.list items ≠ [] := by
    apply List.ne_nil_of_length_pos
    rw [Layout.list, List.length_append, Word.length_toBytes]
    omega
  cases v with
  | uint width x => contradiction
  | bytes data =>
    rw [← Entry.dynamic.inj h]
    exact Layout.payload_ne_nil data
  | text content =>
    rw [← Entry.dynamic.inj h]
    exact Layout.payload_ne_nil _
  | texts items =>
    rw [← Entry.dynamic.inj h]
    exact hlist _
  | blobs items =>
    rw [← Entry.dynamic.inj h]
    exact hlist items

end Exact

/-! ### Main result -/

/-- **No size wraps.**  In an encoding of fewer than 2^64 bytes every size that the encoder
computes, in the frame of the parameters and for each of their values, is the number that it stands
for; none exceeds the length of the encoding, and every place that is written points into its frame.
Lengths are rounded up to the least whole number of words, as long as that has 64 bits; so rounding
up keeps the order, changes nothing when it is repeated, and adds less than a word. -/
theorem sizes_exact :
    (∀ params : List Param, (encode params).length < 2 ^ 64 →
      ExactFrame (encode params).length (params.map fun p => p.value.entry) ∧
      ∀ p ∈ params, p.value.HasExactSizes (encode params).length) ∧
    ∀ len : UInt64, len.toNat ≤ 2 ^ 64 - 32 →
      IsLeast {m | 32 ∣ m ∧ len.toNat ≤ m} (paddedLength len).toNat ∧
      (∀ len' : UInt64, len'.toNat ≤ 2 ^ 64 - 32 → len ≤ len' →
        paddedLength len ≤ paddedLength len') ∧
      paddedLength (paddedLength len) = paddedLength len ∧
      (paddedLength len).toNat < len.toNat + 32 := by
  constructor
  · intro params short
    constructor
    · refine exactFrame (Nat.le_refl _) short fun tail htail => ?_
      obtain ⟨p, -, hp⟩ := List.mem_map.mp htail
      exact Value.tail_ne_nil hp
    · intro p hp
      have hmem : p.value.entry ∈ params.map fun p => p.value.entry := List.mem_map_of_mem hp
      exact Value.hasExactSizes (Layout.length_tail_le hmem) short
  · intro len hlen
    have hexact := toNat_paddedLength_of_le hlen
    -- a whole number of words below 2^64 leaves room for one more
    have hagain : (paddedLength len).toNat ≤ 2 ^ 64 - 32 := by
      rw [hexact]
      unfold roundUp
      omega
    refine ⟨?_, ?_, ?_, ?_⟩
    · rw [hexact]
      exact isLeast_roundUp len.toNat
    · intro len' hlen' hle
      rw [UInt64.le_iff_toNat_le, hexact, toNat_paddedLength_of_le hlen']
      exact roundUp_mono (UInt64.le_iff_toNat_le.mp hle)
    · rw [← UInt64.toNat_inj, toNat_paddedLength_of_le hagain, hexact, roundUp_roundUp]
    · rw [hexact]
      exact roundUp_lt len.toNat

/-- In the sample the list of byte strings stands 160 bytes behind the first head word, and its
second element 96 bytes behind its count; the last length that can be rounded up is a whole number
of words itself. -/
theorem sizes_exact_sample :
    (encode sampleParams).length < 2 ^ 64 ∧
    IsExact (Layout.offsetAt (sampleParams.map fun p => p.value.entry) 2) 160 352 ∧
    IsExact (Layout.offsetAt ([[], [9]].map fun item => .dynamic (Layout.payload item)) 1) 96 352 ∧
    (18446744073709551584 : UInt64).toNat ≤ 2 ^ 64 - 32 ∧
    paddedLength (paddedLength 18446744073709551584) = paddedLength 18446744073709551584 := by
  obtain ⟨hframe, hvalues⟩ := sizes_exact.1 sampleParams sampleParams_short
  have hlist : ExactList (encode sampleParams).length [[], [9]] :=
    hvalues ⟨.array .bytes, .blobs [[], [9]]⟩ (by simp [sampleParams])
  have hlength : (encode sampleParams).length = 352 := by decide +kernel
  rw [hlength] at hframe hlist
  refine ⟨sampleParams_short, hframe.offset 2, hlist.frame.offset 1, by decide, ?_⟩
  exact (sizes_exact.2 18446744073709551584 (by decide)).2.2.1

end CallData.Abi
