/-
CallData/Proofs/Bytes.lean

Pieces of a byte string at known positions.

`HoldsAt buf start piece` says that `piece` stands in `buf` at `start`, by what comes before
it and after it.  Positions add up along pieces of pieces (`HoldsAt.trans`), so a position in
a whole buffer is put together from positions in its parts.  `slice?` is the reading that
goes with it: it gives nothing where the buffer ends too early.
-/
import CallData.Bytes
import Mathlib.Algebra.Ring.Nat
import Mathlib.Order.Basic

namespace CallData.Bytes

variable {buf piece part front back : Bytes} {start shift i : Nat}

/-! ### Pieces in a buffer -/

/-- `piece` stands in `buf` at `start`. -/
def HoldsAt (buf : Bytes) (start : Nat) (piece : Bytes) : Prop :=
  ∃ before after, buf = before ++ piece ++ after ∧ before.length = start

theorem holdsAt_self (buf : Bytes) : HoldsAt buf 0 buf := ⟨[], [], by simp, rfl⟩

theorem HoldsAt.length_le (h : HoldsAt buf start piece) : start + piece.length ≤ buf.length := by
  obtain ⟨before, after, rfl, rfl⟩ := h
  simp only [List.length_append]
  omega

/-- What a piece holds, the buffer around it holds. -/
theorem HoldsAt.trans (h : HoldsAt buf start piece) (h' : HoldsAt piece shift part) :
    HoldsAt buf (start + shift) part := by
  obtain ⟨before, after, rfl, rfl⟩ := h
  obtain ⟨before', after', rfl, rfl⟩ := h'
  exact ⟨before ++ before', after' ++ after, by simp, by simp⟩

theorem HoldsAt.append_right (h : HoldsAt front start piece) (back : Bytes) :
    HoldsAt (front ++ back) start piece := by
  obtain ⟨before, after, rfl, rfl⟩ := h
  exact ⟨before, after ++ back, by simp, rfl⟩

theorem HoldsAt.append_left (h : HoldsAt back start piece) (front : Bytes) :
    HoldsAt (front ++ back) (front.length + start) piece := by
  obtain ⟨before, after, rfl, rfl⟩ := h
  exact ⟨front ++ before, after, by simp, by simp⟩

/-! ### Pieces in a row -/

/-- The total size of the pieces before the one at position `i`. -/
def sizeBefore (pieces : List Bytes) (i : Nat) : Nat := ((pieces.take i).map List.length).sum

@[simp] theorem sizeBefore_zero (pieces : List Bytes) : sizeBefore pieces 0 = 0 := by
  simp [sizeBefore]

@[simp] theorem sizeBefore_cons_succ (piece : Bytes) (pieces : List Bytes) (i : Nat) :
    sizeBefore (piece :: pieces) (i + 1) = piece.length + sizeBefore pieces i := by
  simp [sizeBefore]

theorem sizeBefore_length (pieces : List Bytes) :
    sizeBefore pieces pieces.length = pieces.flatten.length := by
  rw [sizeBefore, List.take_length, List.length_flatten]

/-- Of pieces in a row, each stands behind those before it. -/
theorem holdsAt_flatten {pieces : List Bytes} (h : pieces[i]? = some piece) :
    HoldsAt pieces.flatten (sizeBefore pieces i) piece := by
  -- the first piece stands at the front and moves the others up by its size
  induction pieces generalizing i with
  | nil => simp at h
  | cons first rest ih =>
    cases i with
    | zero =>
      obtain rfl : first = piece := by simpa using h
      rw [sizeBefore_zero, List.flatten_cons]
      exact (holdsAt_self first).append_right _
    | succ i =>
      rw [sizeBefore_cons_succ, List.flatten_cons]
      exact (ih (by simpa using h)).append_left first

/-- Pieces of one size stand at multiples of it. -/
theorem sizeBefore_of_length {pieces : List Bytes} {size : Nat}
    (h : ∀ piece ∈ pieces, piece.length = size) (hi : i ≤ pieces.length) :
    sizeBefore pieces i = size * i := by
  induction pieces generalizing i with
  | nil =>
    obtain rfl : i = 0 := by simpa using hi
    rfl
  | cons first rest ih =>
    cases i with
    | zero => simp
    | succ i =>
      have hrest := ih (fun piece hp => h piece (by simp [hp])) (Nat.le_of_succ_le_succ hi)
      rw [sizeBefore_cons_succ, hrest, h first (by simp), Nat.mul_succ, Nat.add_comm]

/-! ### Pieces of one size -/

theorem getElem?_chunksUpTo {size : Nat} (hs : 0 < size) (limit : Nat) (bs : Bytes)
    (h : bs.length ≤ limit) (i : Nat) : (chunksUpTo size limit bs)[i]? =
      if size * i < bs.length then some ((bs.drop (size * i)).take size) else none := by
  induction limit generalizing bs i with
  | zero =>
    rw [List.length_eq_zero_iff.mp (Nat.le_zero.mp h)]
    simp [chunksUpTo]
  | succ limit ih =>
    cases bs with
    | nil => simp [chunksUpTo]
    | cons b bs =>
      cases i with
      | zero => simp [chunksUpTo]
      | succ i =>
        have hrest : ((b :: bs).drop size).length ≤ limit := by
          rw [List.length_drop]
          rw [List.length_cons] at h ⊢
          omega
        have hmore :
            size * i < ((b :: bs).drop size).length ↔ size * (i + 1) < (b :: bs).length := by
          rw [List.length_drop, Nat.mul_succ]
          omega
        rw [chunksUpTo, List.getElem?_cons_succ, ih _ hrest, List.drop_drop, Nat.mul_succ,
          Nat.add_comm size]
        simp only [hmore, Nat.mul_succ]

/-- The pieces of one size stand at its multiples, as long as there is something to cut. -/
theorem getElem?_chunks {size : Nat} (hs : 0 < size) (bs : Bytes) (i : Nat) : (chunks size bs)[i]? =
    if size * i < bs.length then some ((bs.drop (size * i)).take size) else none :=
  getElem?_chunksUpTo hs _ bs (Nat.le_refl _) i

theorem length_chunks {size count : Nat} (hs : 0 < size) {bs : Bytes}
    (h : bs.length = size * count) : (chunks size bs).length = count := by
  refine eq_of_forall_ge_iff fun i => ?_
  have hmore : size * i < size * count ↔ i < count := Nat.mul_lt_mul_left hs
  rw [← List.getElem?_eq_none_iff, getElem?_chunks hs, h]
  simp [hmore]

/-! ### Reading -/

/-- `count` bytes from `start` on, if the buffer has as many. -/
def slice? (buf : Bytes) (start count : Nat) : Option Bytes :=
  if start + count ≤ buf.length then some ((buf.drop start).take count) else none

theorem HoldsAt.slice? (h : HoldsAt buf start piece) :
    buf.slice? start piece.length = some piece := by
  have hle := h.length_le
  obtain ⟨before, after, rfl, rfl⟩ := h
  rw [Bytes.slice?, if_pos hle]
  simp

end CallData.Bytes
