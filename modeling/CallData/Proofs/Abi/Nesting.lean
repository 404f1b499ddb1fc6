/-
CallData/Proofs/Abi/Nesting.lean

Layouts within a layout.

The elements of an array are laid out as if they were the parameters of a call of their own: behind
its count, the tail of an array is the encoding of its elements, with all places counted from the
word after the count.  And the encoder knows a text by its UTF-8 bytes only, so `raw`, which takes a
text for its bytes, does not change an encoding.

Main result: `encode_nested`.
-/
import CallData.Proofs.Abi.Binding
import CallData.Proofs.Abi.Exact
import CallData.Proofs.Results

namespace CallData.Abi

/-! ### Texts as bytes -/

/-- The type of byte strings in place of that of texts. -/
def ParamType.raw : ParamType → ParamType
  | .string => .bytes
  | .array .string => .array .bytes
  | ty => ty

/-- The UTF-8 bytes in place of the texts. -/
def Value.raw : Value → Value
  | .text content => .bytes (Text.utf8 content)
  | .texts items => .blobs (items.map Text.utf8)
  | v => v

def Param.raw (p : Param) : Param := ⟨p.type.raw, p.value.raw⟩

/-- The byte strings as parameters of their own. -/
def bytesParams (items : List Bytes) : List Param := items.map fun item => ⟨.bytes, .bytes item⟩

/-- The texts as parameters of their own. -/
def textParams (contents : List String) : List Param :=
  contents.map fun content => ⟨.string, .text content⟩

variable {v : Value} {p : Param} {ty : ParamType} {params params' : List Param}

theorem Value.entry_raw (v : Value) : v.raw.entry = v.entry := by
  cases v <;> rfl

theorem ParamType.holds_raw (h : ty.Holds v) : ty.raw.Holds v.raw := by
  cases admits_of_holds h with
  | number => exact h
  | bytes | text | texts | blobs => trivial

/-- A bound parameter is bound as well when its texts are taken for their bytes. -/
theorem Param.isBound_raw (h : p.IsBound) : p.raw.IsBound := by
  rw [isBound_iff_wellTyped] at h ⊢
  exact ParamType.holds_raw h

/-- Taking texts for their bytes here and there leaves the encoding as it is. -/
theorem encode_raw (h : List.Forall₂ (fun p p' => p' = p ∨ p' = p.raw) params params') :
    encode params' = encode params := by
  have hentries : params'.map (fun p => p.value.entry) = params.map (fun p => p.value.entry) := by
    induction h with
    | nil => rfl
    | @cons p p' _ _ hp _ ih =>
      have hentry : p'.value.entry = p.value.entry := by
        rcases hp with rfl | rfl
        · rfl
        · exact p.value.entry_raw
      rw [List.map_cons, List.map_cons, hentry, ih]
  rw [encode, hentries, encode]

/-- Every parameter after that is bound if every one before was. -/
theorem isBound_of_raw (hbound : ∀ p ∈ params, p.IsBound)
    (h : List.Forall₂ (fun p p' => p' = p ∨ p' = p.raw) params params') :
    ∀ p' ∈ params', p'.IsBound := by
  intro p' hp'
  have hpairs := (List.forall₂_and_left params params').mpr ⟨hbound, h⟩
  obtain ⟨p, hp, rfl | rfl⟩ := exists_forall₂_iff.mp ⟨params, hpairs.flip⟩ p' hp'
  · exact hp
  · exact Param.isBound_raw hp

/-! ### Elements as parameters -/

/-- The tail of an array is the encoding of its elements behind their count. -/
theorem Layout.list_eq_encode (items : List Bytes) :
    list items = wordOf (items.length % 2 ^ 64) ++ encode (bytesParams items) := by
  have hsize : (size items).toNat = items.length % 2 ^ 64 := UInt64.toNat_ofNat
  rw [list, toBytes_ofSize, hsize, encode, bytesParams, List.map_map]
  rfl

theorem encode_bytesParams_utf8 (contents : List String) :
    encode (bytesParams (contents.map Text.utf8)) = encode (textParams contents) := by
  rw [encode, encode, bytesParams, textParams, List.map_map, List.map_map, List.map_map]
  rfl

/-- The tail of a single parameter stands behind one word, which holds its place. -/
theorem encode_singleton {tail : Bytes} (h : p.value.entry = .dynamic tail) :
    encode [p] = wordOf 32 ++ tail := by
  rw [encode, List.map_singleton, h, Layout.block, Layout.heads, Layout.heads, Layout.tails,
    Layout.tails, List.append_nil, List.append_nil]
  rfl

/-! ### Main result -/

/-- **An array is encoded as its elements are by themselves, and a text as its bytes.**  The tail of
a list of byte strings or of texts is their count and then the encoding of a list of parameters, one
for each element; the count is a number of 64 bits, which no list in memory exceeds.  When texts and
lists of texts are taken for their UTF-8 bytes at any places in a list of bound parameters, the
parameters are still bound and have the same encoding. -/
theorem encode_nested :
    (∀ items : List Bytes,
      (Value.blobs items).entry =
        .dynamic (wordOf (items.length % 2 ^ 64) ++ encode (bytesParams items)) ∧
      encode [⟨.array .bytes, .blobs items⟩] =
        wordOf 32 ++ (wordOf (items.length % 2 ^ 64) ++ encode (bytesParams items))) ∧
    (∀ contents : List String,
      encode [⟨.array .string, .texts contents⟩] =
        wordOf 32 ++ (wordOf (contents.length % 2 ^ 64) ++ encode (textParams contents))) ∧
    ∀ params params', (∀ p ∈ params, p.IsBound) →
      List.Forall₂ (fun p p' => p' = p ∨ p' = p.raw) params params' →
      (∀ p' ∈ params', p'.IsBound) ∧ encode params' = encode params := by
  have hblobs (items : List Bytes) : (Value.blobs items).entry =
      .dynamic (wordOf (items.length % 2 ^ 64) ++ encode (bytesParams items)) := by
    rw [Value.entry, Layout.list_eq_encode]
  refine ⟨fun items => ⟨hblobs items, encode_singleton (hblobs items)⟩, ?_, ?_⟩
  · intro contents
    have hcount := contents.length_map (f := Text.utf8)
    refine encode_singleton ?_
    rw [Value.entry, Layout.list_eq_encode, hcount, encode_bytesParams_utf8]
  · intro params params' hbound hraw
    exact ⟨isBound_of_raw hbound hraw, encode_raw hraw⟩

/-- The list of texts becomes one of byte strings, and the text in front of it stays. -/
theorem encode_nested_sample :
    encode [⟨.string, .text "é"⟩, ⟨.array .bytes, .blobs [[195, 169], []]⟩] =
      encode [⟨.string, .text "é"⟩, ⟨.array .string, .texts ["é", ""]⟩] := by
  have hbound : ∀ p ∈ [(⟨.string, .text "é"⟩ : Param), ⟨.array .string, .texts ["é", ""]⟩],
      p.IsBound := by
    simp [Param.isBound_iff_wellTyped, Param.WellTyped, ParamType.Holds]
  have hutf8 : (⟨.array .bytes, .blobs [[195, 169], []]⟩ : Param) =
      Param.raw ⟨.array .string, .texts ["é", ""]⟩ := by decide
  exact (encode_nested.2.2 _ _ hbound (.cons (.inl rfl) (.cons (.inr hutf8) .nil))).2

end CallData.Abi
