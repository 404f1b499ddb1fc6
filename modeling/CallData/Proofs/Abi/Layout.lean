/-
CallData/Proofs/Abi/Layout.lean

The layout law: where everything stands in an encoding, and how long it is.

A frame is a row of head words followed by a row of entries.  In a frame the head words stand
at multiples of 32 (`holdsAt_head`) and each entry stands at its place (`holdsAt_piece`).
The encoding of a list of parameters is such a frame, and so is what follows the count in the
entry of an array; places within an array are therefore places within its entry, moved up by
the count (`holdsAt_listEntry_item`).
-/
import CallData.Proofs.Abi.Binding
import CallData.Proofs.Abi.Exact
import Mathlib.Algebra.BigOperators.Ring.List
import Mathlib.Algebra.Ring.Nat

namespace CallData.Abi

open Bytes (sizeBefore HoldsAt)

/-! ### Frames -/

section Frame

variable {heads pieces : List Bytes} {head piece : Bytes} {i : Nat}

theorem length_flatten_words (words : ∀ word ∈ heads, word.length = 32) :
    heads.flatten.length = 32 * heads.length := by
  rw [← Bytes.sizeBefore_length, Bytes.sizeBefore_of_length words (Nat.le_refl _)]

theorem holdsAt_head (words : ∀ word ∈ heads, word.length = 32) (h : heads[i]? = some head)
    (pieces : List Bytes) : HoldsAt (heads.flatten ++ pieces.flatten) (32 * i) head := by
  obtain ⟨hi, -⟩ := List.getElem?_eq_some_iff.mp h
  rw [← Bytes.sizeBefore_of_length words (Nat.le_of_lt hi)]
  exact (Bytes.holdsAt_flatten h).append_right _

theorem holdsAt_piece (words : ∀ word ∈ heads, word.length = 32)
    (count : heads.length = pieces.length) (h : pieces[i]? = some piece) :
    HoldsAt (heads.flatten ++ pieces.flatten) (offsetOf pieces i) piece := by
  rw [offsetOf, ← count, ← length_flatten_words words]
  exact (Bytes.holdsAt_flatten h).append_left _

end Frame

/-! ### Within an entry -/

theorem holdsAt_payloadEntry_length (data : Bytes) :
    HoldsAt (payloadEntry data) 0 (wordOf data.length) :=
  ((Bytes.holdsAt_self _).append_right _).append_right _

theorem holdsAt_payloadEntry_data (data : Bytes) : HoldsAt (payloadEntry data) 32 data := by
  have h := (Bytes.holdsAt_self data).append_left (wordOf data.length)
  rw [length_wordOf] at h
  exact h.append_right _

section ListEntry

variable {items : List Bytes} {item : Bytes} {j : Nat}

theorem length_of_mem_placeWords : ∀ word ∈ placeWords items, word.length = 32 := by
  intro word hword
  obtain ⟨j, hj, rfl⟩ := List.mem_mapIdx.mp hword
  exact length_wordOf _

theorem length_flatten_placeWords (items : List Bytes) :
    (placeWords items).flatten.length = 32 * items.length := by
  rw [length_flatten_words length_of_mem_placeWords, placeWords, List.length_mapIdx]

theorem holdsAt_listEntry_count (items : List Bytes) :
    HoldsAt (listEntry items) 0 (wordOf items.length) :=
  (Bytes.holdsAt_self _).append_right _

/-- What stands in the frame behind the count stands one word later in the entry. -/
theorem holdsAt_listEntry {start : Nat}
    (h : HoldsAt ((placeWords items).flatten ++ (items.map payloadEntry).flatten) start item) :
    HoldsAt (listEntry items) (32 + start) item := by
  have hentry := h.append_left (wordOf items.length)
  rwa [length_wordOf] at hentry

theorem holdsAt_listEntry_place (h : items[j]? = some item) :
    HoldsAt (listEntry items) (32 + 32 * j) (wordOf (offsetOf (items.map payloadEntry) j)) := by
  have hword : (placeWords items)[j]? = some (wordOf (offsetOf (items.map payloadEntry) j)) := by
    simp [placeWords, h]
  exact holdsAt_listEntry (holdsAt_head length_of_mem_placeWords hword _)

theorem holdsAt_listEntry_item (h : items[j]? = some item) :
    HoldsAt (listEntry items) (32 + offsetOf (items.map payloadEntry) j) (payloadEntry item) := by
  have hentry : (items.map payloadEntry)[j]? = some (payloadEntry item) := by
    simp [h]
  have hcount : (placeWords items).length = (items.map payloadEntry).length := by
    simp [placeWords]
  exact holdsAt_listEntry (holdsAt_piece length_of_mem_placeWords hcount hentry)

end ListEntry

/-! ### Within an encoding -/

section Encoding

variable {params : List Param} {p : Param} {i : Nat}

theorem Value.length_headWord (v : Value) (place : Nat) : (v.headWord place).length = 32 := by
  cases v <;> exact length_wordOf _

theorem length_of_mem_headWords : ∀ word ∈ headWords params, word.length = 32 := by
  intro word hword
  obtain ⟨i, hi, rfl⟩ := List.mem_mapIdx.mp hword
  exact Value.length_headWord _ _

theorem getElem?_headWords (h : params[i]? = some p) :
    (headWords params)[i]? = some (p.value.headWord (offsetOf (tailEntries params) i)) := by
  simp [headWords, h]

theorem holdsAt_encode_head (short : (encode params).length < 2 ^ 64) (h : params[i]? = some p) :
    HoldsAt (encode params) (32 * i) (p.value.headWord (offsetOf (tailEntries params) i)) := by
  rw [encode_eq short]
  exact holdsAt_head length_of_mem_headWords (getElem?_headWords h) _

theorem holdsAt_encode_tail (short : (encode params).length < 2 ^ 64) (h : params[i]? = some p) :
    HoldsAt (encode params) (offsetOf (tailEntries params) i) p.value.tailEntry := by
  have hcount : (headWords params).length = (tailEntries params).length := by
    simp [headWords, tailEntries]
  have htail : (tailEntries params)[i]? = some p.value.tailEntry := by
    simp [tailEntries, h]
  rw [encode_eq short]
  exact holdsAt_piece length_of_mem_headWords hcount htail

/-- The head word of a parameter of a dynamic type is the place of its tail entry. -/
theorem Value.headWord_of_isDynamic {ty : ParamType} {v : Value} (h : ty.Holds v)
    (hdynamic : ty.isDynamic = true) (place : Nat) : v.headWord place = wordOf place := by
  cases v with
  | uint width x => cases ty <;> simp [ParamType.Holds, ParamType.isDynamic] at h hdynamic
  | bytes data | text content | texts items | blobs items => rfl

end Encoding

/-! ### Sizes -/

theorem length_payloadEntry (data : Bytes) :
    (payloadEntry data).length = 32 + roundUp data.length := by
  have hle := le_roundUp data.length
  simp only [payloadEntry, List.length_append, length_wordOf, List.length_replicate]
  omega

/-- An element of a list takes up its place word and its entry. -/
theorem length_listEntry (items : List Bytes) :
    (listEntry items).length = 32 + (items.map fun data => 64 + roundUp data.length).sum := by
  -- the place words and the entries are added up together, element by element
  have hentries : 32 * items.length + (items.map payloadEntry).flatten.length =
      (items.map fun data => 64 + roundUp data.length).sum := by
    induction items with
    | nil => rfl
    | cons item rest ih =>
      simp only [List.map_cons, List.flatten_cons, List.length_append, List.length_cons,
        List.sum_cons, length_payloadEntry] at ih ⊢
      omega
  rw [listEntry, List.length_append, List.length_append, length_wordOf,
    length_flatten_placeWords, hentries]

namespace Value

def tailSize : Value → Nat
  | .uint _ _ => 0
  | .bytes data => 32 + roundUp data.length
  | .text content => 32 + roundUp (Text.utf8 content).length
  | .texts items => 32 + (items.map fun s => 64 + roundUp (Text.utf8 s).length).sum
  | .blobs items => 32 + (items.map fun data => 64 + roundUp data.length).sum

theorem length_tailEntry (v : Value) : v.tailEntry.length = v.tailSize := by
  cases v with
  | uint width x => rfl
  | bytes data => exact length_payloadEntry data
  | text content => exact length_payloadEntry _
  | texts items =>
    rw [tailEntry, length_listEntry, List.map_map]
    rfl
  | blobs items => exact length_listEntry items

/-- Tail entries are whole words. -/
theorem dvd_tailSize (v : Value) : 32 ∣ v.tailSize := by
  have hitem (n : Nat) : 32 ∣ 64 + roundUp n := Nat.dvd_add (by decide) (dvd_roundUp n)
  cases v with
  | uint width x => exact Nat.dvd_zero 32
  | bytes data => exact Nat.dvd_add (Nat.dvd_refl 32) (dvd_roundUp _)
  | text content => exact Nat.dvd_add (Nat.dvd_refl 32) (dvd_roundUp _)
  | texts items =>
    refine Nat.dvd_add (Nat.dvd_refl 32) (List.dvd_sum fun n hn => ?_)
    obtain ⟨s, -, rfl⟩ := List.mem_map.mp hn
    exact hitem _
  | blobs items =>
    refine Nat.dvd_add (Nat.dvd_refl 32) (List.dvd_sum fun n hn => ?_)
    obtain ⟨data, -, rfl⟩ := List.mem_map.mp hn
    exact hitem _

end Value

theorem length_encode {params : List Param} (short : (encode params).length < 2 ^ 64) :
    (encode params).length = 32 * params.length + (params.map (·.value.tailSize)).sum := by
  have hheads : (headWords params).flatten.length = 32 * params.length := by
    rw [length_flatten_words length_of_mem_headWords]
    simp [headWords]
  have htails : (tailEntries params).flatten.length = (params.map (·.value.tailSize)).sum := by
    simp [tailEntries, Function.comp_def, Value.length_tailEntry]
  rw [encode_eq short, List.length_append, hheads, htails]

/-! ### Whole words

Everything is filled up to whole words, and that is so even where a size exceeds its 64 bits, as
they hold whole words themselves. -/

namespace Layout

theorem dvd_length_padded (data : Bytes) : 32 ∣ (padded data).length := by
  have hsize : (size data).toNat = data.length % 2 ^ 64 := UInt64.toNat_ofNat
  rw [padded, List.length_append, List.length_replicate, UInt64.toNat_sub, toNat_paddedLength,
    hsize, roundUp]
  omega

theorem dvd_length_payload (data : Bytes) : 32 ∣ (payload data).length := by
  rw [payload, List.length_append, Word.length_toBytes]
  exact Nat.dvd_add (Nat.dvd_refl 32) (dvd_length_padded data)

/-- A layout consists of whole words if the tails in it do. -/
theorem dvd_length_block {entries : List Entry} (h : ∀ entry ∈ entries, 32 ∣ entry.tail.length) :
    32 ∣ (block entries).length := by
  rw [block, List.length_append, length_heads, tails_eq, List.length_flatten, List.map_map]
  refine Nat.dvd_add (Nat.dvd_mul_right 32 _) (List.dvd_sum fun n hn => ?_)
  obtain ⟨entry, hentry, rfl⟩ := List.mem_map.mp hn
  exact h entry hentry

theorem dvd_length_list (items : List Bytes) : 32 ∣ (list items).length := by
  rw [list, List.length_append, Word.length_toBytes]
  refine Nat.dvd_add (Nat.dvd_refl 32) (dvd_length_block fun entry hentry => ?_)
  obtain ⟨item, -, rfl⟩ := List.mem_map.mp hentry
  exact dvd_length_payload item

end Layout

theorem Value.dvd_length_tail_entry (v : Value) : 32 ∣ v.entry.tail.length := by
  cases v with
  | uint width x => exact Nat.dvd_zero 32
  | bytes data => exact Layout.dvd_length_payload data
  | text content => exact Layout.dvd_length_payload _
  | texts items => exact Layout.dvd_length_list _
  | blobs items => exact Layout.dvd_length_list items

theorem dvd_length_encode (params : List Param) : 32 ∣ (encode params).length := by
  refine Layout.dvd_length_block fun entry hentry => ?_
  obtain ⟨p, -, rfl⟩ := List.mem_map.mp hentry
  exact p.value.dvd_length_tail_entry

/-! ### The layout law -/

/-- **The layout law.**  The encoding of bound parameters is one head word for each and then
their tail entries, in order and without a gap.  The head word of an integer is its number;
the head word of any other parameter is the place of its tail entry, behind all head words and
the tail entries before it, and that is where the entry stands.  The sizes add up, to whole
words. -/
theorem encode_layout {params : List Param} (bound : ∀ p ∈ params, p.IsBound)
    (short : (encode params).length < 2 ^ 64) :
    encode params = (headWords params).flatten ++ (tailEntries params).flatten ∧
    (∀ i p, params[i]? = some p →
      (∀ w, p.type = .uint w → ∃ x, p.value = .uint w x ∧
        HoldsAt (encode params) (32 * i) (wordOf x.toNat)) ∧
      (p.type.isDynamic = true →
        HoldsAt (encode params) (32 * i) (wordOf (offsetOf (tailEntries params) i)) ∧
        HoldsAt (encode params) (offsetOf (tailEntries params) i) p.value.tailEntry)) ∧
    (encode params).length = 32 * params.length + (params.map (·.value.tailSize)).sum ∧
    32 ∣ (encode params).length := by
  refine ⟨encode_eq short, ?_, length_encode short, ?_⟩
  · intro i p hp
    have htyped : p.WellTyped := Param.isBound_iff_wellTyped.mp (bound p (List.mem_of_getElem? hp))
    have hhead := holdsAt_encode_head short hp
    constructor
    · -- an integer is its own head word
      intro w hw
      rw [Param.WellTyped, hw] at htyped
      obtain ⟨x, hx, -⟩ := Value.eq_uint_of_holds htyped
      rw [hx] at hhead
      exact ⟨x, hx, hhead⟩
    · -- any other value stands where its head word points
      intro hdynamic
      rw [Value.headWord_of_isDynamic htyped hdynamic] at hhead
      exact ⟨hhead, holdsAt_encode_tail short hp⟩
  · rw [length_encode short]
    refine Nat.dvd_add (Nat.dvd_mul_right 32 _) (List.dvd_sum fun n hn => ?_)
    obtain ⟨p, -, rfl⟩ := List.mem_map.mp hn
    exact Value.dvd_tailSize _

/-- A number, a byte string, and a list of byte strings of which one is empty. -/
def sampleParams : List Param :=
  [⟨.uint .w32, .uint .w32 7⟩, ⟨.bytes, .bytes [1, 2, 3]⟩, ⟨.array .bytes, .blobs [[], [9]]⟩]

theorem sampleParams_bound : ∀ p ∈ sampleParams, p.IsBound := by
  intro p hp
  rw [Param.isBound_iff_wellTyped]
  simp only [sampleParams, List.mem_cons, List.not_mem_nil, or_false] at hp
  rcases hp with rfl | rfl | rfl
  · exact ⟨rfl, by decide⟩
  · trivial
  · trivial

theorem sampleParams_short : (encode sampleParams).length < 2 ^ 64 := by
  decide +kernel

/-- In the sample the list stands behind three head words and the two words of the byte
string. -/
theorem encode_layout_sample :
    (∀ p ∈ sampleParams, p.IsBound) ∧ (encode sampleParams).length < 2 ^ 64 ∧
    HoldsAt (encode sampleParams) 64 (wordOf 160) ∧
    HoldsAt (encode sampleParams) 160 (listEntry [[], [9]]) ∧
    (encode sampleParams).length = 352 := by
  obtain ⟨-, hplaces, hlength, -⟩ := encode_layout sampleParams_bound sampleParams_short
  obtain ⟨hhead, htail⟩ := (hplaces 2 _ rfl).2 rfl
  exact ⟨sampleParams_bound, sampleParams_short, hhead, htail, hlength⟩

end CallData.Abi
