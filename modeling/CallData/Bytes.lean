/-
CallData/Bytes.lean

Byte strings and the numbers they spell.

A byte string is a list of bytes.  Read as a number, its first byte is the most
significant one.  `Bytes.ofNat` writes a number in a fixed count of bytes and keeps the
low-order part; `Bytes.chunks` cuts a byte string into pieces of one size, of which only
the last may be shorter.
-/
namespace CallData

/-- A byte string. -/
abbrev Bytes := List UInt8

namespace Bytes

-- powers of numbers are those of the core library
attribute [local instance (high)] instPowNat

/-! ### Numbers in base 256 -/

/-- The number whose base-256 digits are `bs`, the most significant first. -/
def toNat (bs : Bytes) : Nat :=
  bs.foldl (fun n b => 256 * n + b.toNat) 0

/-- The low-order `count` bytes of `n`, the most significant first. -/
def ofNat : Nat → Nat → Bytes
  | 0, _ => []
  | count + 1, n => ofNat count (n / 256) ++ [UInt8.ofNat n]

@[simp] theorem length_ofNat (count n : Nat) : (ofNat count n).length = count := by
  induction count generalizing n with
  | zero => rfl
  | succ count ih => simp [ofNat, ih]

/-- A number in front of a byte string moves up by as many places as the string has bytes. -/
theorem foldl_eq_toNat (bs : Bytes) (n : Nat) :
    bs.foldl (fun n b => 256 * n + b.toNat) n = 256 ^ bs.length * n + toNat bs := by
  induction bs generalizing n with
  | nil => simp [toNat]
  | cons b bs ih =>
    simp only [toNat, List.foldl_cons, List.length_cons]
    rw [ih, ih (256 * 0 + b.toNat)]
    simp only [Nat.mul_add, Nat.pow_succ]
    grind

@[simp] theorem toNat_nil : toNat [] = 0 := rfl

theorem toNat_cons (b : UInt8) (bs : Bytes) :
    toNat (b :: bs) = 256 ^ bs.length * b.toNat + toNat bs := by
  have h := foldl_eq_toNat bs (256 * 0 + b.toNat)
  simpa [toNat] using h

theorem toNat_append (as bs : Bytes) :
    toNat (as ++ bs) = 256 ^ bs.length * toNat as + toNat bs := by
  simp only [toNat, List.foldl_append]
  exact foldl_eq_toNat bs _

theorem toNat_concat (bs : Bytes) (b : UInt8) :
    toNat (bs ++ [b]) = 256 * toNat bs + b.toNat := by
  simp [toNat_append, toNat_cons]

theorem toNat_lt (bs : Bytes) : toNat bs < 256 ^ bs.length := by
  induction bs with
  | nil => simp
  | cons b bs ih =>
    have hb := b.toNat_lt
    have hle : 256 ^ bs.length * b.toNat ≤ 256 ^ bs.length * 255 :=
      Nat.mul_le_mul_left _ (by omega)
    rw [toNat_cons, List.length_cons, Nat.pow_succ]
    omega

/-- Writing keeps the number modulo the power of 256 that has room. -/
theorem toNat_ofNat (count n : Nat) : toNat (ofNat count n) = n % 256 ^ count := by
  induction count generalizing n with
  | zero => simp [ofNat, Nat.mod_one]
  | succ count ih =>
    rw [ofNat, toNat_concat, ih, Nat.pow_succ', Nat.mod_mul]
    simp
    omega

/-- A byte string is written back from its number and its length. -/
theorem ofNat_toNat (bs : Bytes) : ofNat bs.length (toNat bs) = bs := by
  induction h : bs.length generalizing bs with
  | zero =>
    rw [List.length_eq_zero_iff.mp h]
    rfl
  | succ n ih =>
    have hne : bs ≠ [] := by
      rintro rfl
      simp at h
    obtain ⟨as, b, rfl⟩ : ∃ as b, bs = as ++ [b] :=
      ⟨bs.dropLast, bs.getLast hne, (List.dropLast_concat_getLast hne).symm⟩
    have hb := b.toNat_lt
    have hdiv : (256 * toNat as + b.toNat) / 256 = toNat as := by omega
    have hlast : UInt8.ofNat (256 * toNat as + b.toNat) = b := by
      apply UInt8.toNat_inj.mp
      simp
    rw [ofNat, toNat_concat, hdiv, hlast, ih as (by simpa using h)]

/-! ### Pieces of one size -/

/-- At most `limit` pieces of `size` bytes from the front of `bs`. -/
def chunksUpTo (size : Nat) : Nat → Bytes → List Bytes
  | 0, _ => []
  | _ + 1, [] => []
  | limit + 1, b :: bs => (b :: bs).take size :: chunksUpTo size limit ((b :: bs).drop size)

/-- The pieces of `size` bytes that `bs` consists of, the last one possibly shorter.
There are never more pieces than bytes, as long as `size` is positive. -/
def chunks (size : Nat) (bs : Bytes) : List Bytes :=
  chunksUpTo size bs.length bs

theorem flatten_chunksUpTo {size : Nat} (hs : 0 < size) (limit : Nat) (bs : Bytes)
    (h : bs.length ≤ limit) : (chunksUpTo size limit bs).flatten = bs := by
  induction limit generalizing bs with
  | zero =>
    rw [List.length_eq_zero_iff.mp (Nat.le_zero.mp h)]
    rfl
  | succ limit ih =>
    cases bs with
    | nil => rfl
    | cons b bs =>
      have hrest : ((b :: bs).drop size).length ≤ limit := by
        simp at h ⊢
        omega
      rw [chunksUpTo, List.flatten_cons, ih _ hrest, List.take_append_drop]

/-- The pieces in order are the byte string. -/
theorem flatten_chunks {size : Nat} (hs : 0 < size) (bs : Bytes) :
    (chunks size bs).flatten = bs := flatten_chunksUpTo hs _ bs (Nat.le_refl _)

end Bytes

end CallData
