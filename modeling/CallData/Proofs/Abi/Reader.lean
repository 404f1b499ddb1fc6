/-
CallData/Proofs/Abi/Reader.lean

Reading an encoding back.

The reader gets the types and a buffer and follows what the buffer says: places of tail
entries count from the start of the buffer, places of array elements from the word after the
count.  Every read goes through `Bytes.slice?`, so a read that leaves the buffer makes the
whole reading fail.

Main result: from the encoding of well-typed parameters the reader takes their values
(`values?_encode`), so an encoding determines the parameters that have its types
(`encode_injective`).  The proof carries the place of each entry in the whole buffer
(`Bytes.HoldsAt`) from the layout law down to the words and bytes of the entry; what the
payload itself looks like never matters.
-/
import CallData.Proofs.Abi.Layout
import CallData.Proofs.Results

namespace CallData.Abi

open Bytes (HoldsAt)

/-! ### The reader -/

namespace Reader

/-- The number in the word at `start`. -/
def number? (buf : Bytes) (start : Nat) : Option Nat := do
  let word ← buf.slice? start 32
  return word.toNat

/-- The byte string whose length stands at `start`. -/
def payload? (buf : Bytes) (start : Nat) : Option Bytes := do
  let length ← number? buf start
  buf.slice? (start + 32) length

/-- The byte strings whose count stands at `start`. -/
def list? (buf : Bytes) (start : Nat) : Option (List Bytes) := do
  let count ← number? buf start
  (List.range count).mapM fun j => do
    let place ← number? buf (start + (32 + 32 * j))
    payload? buf (start + (32 + place))

/-- The value of a type whose head word stands at `start`.  For an integer type the word is the
number; for the others it is the place of the tail entry. -/
def value? (buf : Bytes) (start : Nat) (ty : ParamType) : Option Value := do
  let number ← number? buf start
  match ty with
  | .uint width => some (.uint width (BitVec.ofNat 256 number))
  | .bytes => (payload? buf number).map .bytes
  | .string => ((payload? buf number).bind Text.ofUtf8?).map .text
  | .array .bytes => (list? buf number).map .blobs
  | .array .string => ((list? buf number).bind (List.mapM Text.ofUtf8?)).map .texts

/-- The values of some types, whose head words stand one after the other. -/
def values? (types : List ParamType) (buf : Bytes) : Option (List Value) :=
  types.zipIdx.mapM fun (ty, i) => value? buf (32 * i) ty

/-! ### Reading entries -/

/-- Results for all members of a list, position by position. -/
theorem mapM_eq_some {α β : Type} {f : α → Option β} {xs : List α} {ys : List β}
    (count : xs.length = ys.length)
    (h : ∀ (i : Nat) x y, xs[i]? = some x → ys[i]? = some y → f x = some y) :
    xs.mapM f = some ys := by
  refine mapM_eq_some_iff.mpr (List.forall₂_iff_get.mpr ⟨count, fun i hx hy => ?_⟩)
  exact h i _ _ (List.getElem?_eq_getElem hx) (List.getElem?_eq_getElem hy)

variable {buf data : Bytes} {items : List Bytes} {start n : Nat}

theorem number?_of_holdsAt (h : HoldsAt buf start (wordOf n)) (hn : n < 2 ^ 256) :
    number? buf start = some n := by
  have hslice := h.slice?
  rw [length_wordOf] at hslice
  rw [number?, hslice]
  exact congrArg some (toNat_wordOf hn)

/-- A number that is no larger than the buffer fits a word. -/
theorem lt_word_of_le (short : buf.length < 2 ^ 64) (h : n ≤ buf.length) : n < 2 ^ 256 :=
  Nat.lt_of_le_of_lt h (Nat.lt_of_lt_of_le short (by decide))

theorem payload?_of_holdsAt (short : buf.length < 2 ^ 64)
    (h : HoldsAt buf start (payloadEntry data)) :
    payload? buf start = some data := by
  have hdata := h.trans (holdsAt_payloadEntry_data data)
  have hlength : HoldsAt buf start (wordOf data.length) :=
    h.trans (holdsAt_payloadEntry_length data)
  have hle : data.length ≤ buf.length := Nat.le_trans (Nat.le_add_left _ _) hdata.length_le
  rw [payload?, number?_of_holdsAt hlength (lt_word_of_le short hle)]
  exact hdata.slice?

theorem list?_of_holdsAt (short : buf.length < 2 ^ 64) (h : HoldsAt buf start (listEntry items)) :
    list? buf start = some items := by
  have hcount : HoldsAt buf start (wordOf items.length) := h.trans (holdsAt_listEntry_count items)
  have hle : items.length ≤ buf.length := by
    have hentry := h.length_le
    rw [listEntry, List.length_append, List.length_append, length_flatten_placeWords] at hentry
    omega
  rw [list?, number?_of_holdsAt hcount (lt_word_of_le short hle)]
  -- every place lies behind the count, which is where the reader counts from
  refine mapM_eq_some (by simp) fun j _ item hj hitem => ?_
  obtain ⟨-, rfl⟩ := List.getElem?_eq_some_iff.mp hj
  have hplace := h.trans (holdsAt_listEntry_place hitem)
  have hentry := h.trans (holdsAt_listEntry_item hitem)
  have hle' : offsetOf (items.map payloadEntry) j ≤ buf.length := by
    have := hentry.length_le
    omega
  rw [List.getElem_range, number?_of_holdsAt hplace (lt_word_of_le short hle')]
  exact payload?_of_holdsAt short hentry

/-! ### Reading values -/

theorem mapM_ofUtf8? (contents : List String) :
    (contents.map Text.utf8).mapM Text.ofUtf8? = some contents :=
  mapM_map_of_inverse Text.ofUtf8?_utf8 contents

/-- A value is read where its head word stands, if its tail entry stands where that word
points. -/
theorem value?_of_holdsAt {ty : ParamType} {v : Value} {place : Nat} (short : buf.length < 2 ^ 64)
    (htyped : ty.Holds v) (hhead : HoldsAt buf start (v.headWord place))
    (htail : HoldsAt buf place v.tailEntry) : value? buf start ty = some v := by
  have hplace : place < 2 ^ 256 :=
    lt_word_of_le short (Nat.le_trans (Nat.le_add_right _ _) htail.length_le)
  have htype := Value.inferType_eq_ok_iff.mpr htyped
  -- the type decides how the reader goes on, and a value has one type only
  cases v with
  | uint width x =>
    obtain rfl : ty = .uint width := ParamType.eq_uint_of_holds htyped
    rw [value?, number?_of_holdsAt hhead x.isLt]
    simp
  | bytes data =>
    obtain rfl : ParamType.bytes = ty := Except.ok.inj htype
    rw [value?, number?_of_holdsAt hhead hplace]
    exact congrArg (Option.map Value.bytes) (payload?_of_holdsAt short htail)
  | text content =>
    obtain rfl : ParamType.string = ty := Except.ok.inj htype
    have hread : (payload? buf place).bind Text.ofUtf8? = some content := by
      rw [payload?_of_holdsAt short htail]
      exact Text.ofUtf8?_utf8 content
    rw [value?, number?_of_holdsAt hhead hplace]
    exact congrArg (Option.map Value.text) hread
  | texts contents =>
    obtain rfl : ParamType.array .string = ty := Except.ok.inj htype
    have hread : (list? buf place).bind (List.mapM Text.ofUtf8?) = some contents := by
      rw [list?_of_holdsAt short htail]
      exact mapM_ofUtf8? contents
    rw [value?, number?_of_holdsAt hhead hplace]
    exact congrArg (Option.map Value.texts) hread
  | blobs items =>
    obtain rfl : ParamType.array .bytes = ty := Except.ok.inj htype
    rw [value?, number?_of_holdsAt hhead hplace]
    exact congrArg (Option.map Value.blobs) (list?_of_holdsAt short htail)

end Reader

/-! ### Reading encodings -/

open Reader

/-- **An encoding is read back.** -/
theorem values?_encode {params : List Param} (typed : ∀ p ∈ params, p.WellTyped)
    (short : (encode params).length < 2 ^ 64) :
    values? (params.map (·.type)) (encode params) = some (params.map (·.value)) := by
  -- the layout law says where the head word and the tail entry of each parameter stand
  refine mapM_eq_some (by simp) fun i x v hx hv => ?_
  obtain ⟨p, hp, rfl⟩ : ∃ p, params[i]? = some p ∧ p.value = v := by simpa using hv
  obtain rfl : x = (p.type, i) := by simpa [hp, eq_comm] using hx
  exact value?_of_holdsAt short (typed p (List.mem_of_getElem? hp)) (holdsAt_encode_head short hp)
    (holdsAt_encode_tail short hp)

/-- Parameters are known by their types and values. -/
theorem params_ext {ps qs : List Param} (htypes : ps.map (·.type) = qs.map (·.type))
    (hvalues : ps.map (·.value) = qs.map (·.value)) : ps = qs := by
  induction ps generalizing qs with
  | nil => simpa using htypes.symm
  | cons p ps ih =>
    cases qs with
    | nil => simp at htypes
    | cons q qs =>
      simp only [List.map_cons, List.cons.injEq] at htypes hvalues
      obtain ⟨htype, htypes⟩ := htypes
      obtain ⟨hvalue, hvalues⟩ := hvalues
      have hhead : p = q := by
        cases p
        cases q
        exact congrArg₂ _ htype hvalue
      rw [hhead, ih htypes hvalues]

/-- **An encoding determines the parameters that have its types.** -/
theorem encode_injective {ps qs : List Param} (hps : ∀ p ∈ ps, p.WellTyped)
    (hqs : ∀ q ∈ qs, q.WellTyped) (short : (encode ps).length < 2 ^ 64)
    (htypes : ps.map (·.type) = qs.map (·.type)) (h : encode ps = encode qs) : ps = qs := by
  have hread := values?_encode hps short
  rw [htypes, h, values?_encode hqs (h ▸ short)] at hread
  exact params_ext htypes (Option.some.inj hread).symm

end CallData.Abi
