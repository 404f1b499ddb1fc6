/-
CallData/Keccak.lean

The hash function Keccak-256, in the form used for selectors: rate 136 bytes, capacity 64
bytes, and the padding that starts with the bit `1` alone.

The state is 25 lanes of 64 bits; the lane in column `x` and row `y` has index `x + 5 * y`.
Each step of a round is given by the value it puts into each lane.
-/
import CallData.Digest

namespace CallData.Keccak

/-- The state of the permutation. -/
abbrev State := Vector UInt64 25

namespace State

/-- The state with the given value in each lane. -/
def build (f : Nat → Nat → UInt64) : State :=
  Vector.ofFn fun i => f (i.val % 5) (i.val / 5)

/-- The lane in column `x` and row `y`, both counted modulo five. -/
def lane (s : State) (x y : Nat) : UInt64 := s.get ⟨x % 5 + 5 * (y % 5), by omega⟩

def zero : State := Vector.replicate 25 0

end State

/-! ### The permutation -/

/-- A lane turned left by `n` bits, for `n` below 64. -/
def rotateLeft (v n : UInt64) : UInt64 := (v <<< n) ||| (v >>> (64 - n))

/-- By how many bits the lane at each index is turned. -/
def rotations : Vector UInt64 25 :=
  #v[0, 1, 62, 28, 27,
     36, 44, 6, 55, 20,
     3, 10, 43, 25, 39,
     41, 45, 15, 21, 8,
     18, 2, 61, 56, 14]

/-- The constant of each of the 24 rounds. -/
def roundConstants : List UInt64 :=
  [0x0000000000000001, 0x0000000000008082, 0x800000000000808A, 0x8000000080008000,
   0x000000000000808B, 0x0000000080000001, 0x8000000080008081, 0x8000000000008009,
   0x000000000000008A, 0x0000000000000088, 0x0000000080008009, 0x000000008000000A,
   0x000000008000808B, 0x800000000000008B, 0x8000000000008089, 0x8000000000008003,
   0x8000000000008002, 0x8000000000000080, 0x000000000000800A, 0x800000008000000A,
   0x8000000080008081, 0x8000000000008080, 0x0000000080000001, 0x8000000080008008]

/-- Adds to each lane the parities of the two neighbouring columns. -/
def theta (s : State) : State :=
  let parity : Vector UInt64 5 := Vector.ofFn fun x =>
    s.lane x.val 0 ^^^ s.lane x.val 1 ^^^ s.lane x.val 2 ^^^ s.lane x.val 3 ^^^ s.lane x.val 4
  let column (x : Nat) : UInt64 := parity.get ⟨x % 5, by omega⟩
  State.build fun x y => s.lane x y ^^^ column (x + 4) ^^^ rotateLeft (column (x + 1)) 1

/-- Turns each lane and moves it: the lane from column `x` and row `y` goes to column `y`
and row `2 * x + 3 * y`. -/
def rhoPi (s : State) : State :=
  State.build fun x y => rotateLeft (s.lane (x + 3 * y) x) (State.lane rotations (x + 3 * y) x)

/-- Mixes the lanes of each row. -/
def chi (s : State) : State :=
  State.build fun x y => s.lane x y ^^^ (~~~ s.lane (x + 1) y &&& s.lane (x + 2) y)

/-- Adds the constant of the round to the first lane. -/
def iota (constant : UInt64) (s : State) : State :=
  s.set 0 (s[0] ^^^ constant)

def round (s : State) (constant : UInt64) : State :=
  iota constant (chi (rhoPi (theta s)))

/-- The permutation: 24 rounds. -/
def permute (s : State) : State := roundConstants.foldl round s

/-! ### The sponge -/

/-- The number of message bytes that one permutation takes in. -/
def rate : Nat := 136

/-- The bytes that fill a message of `length` bytes up to a multiple of the rate. -/
def padding (length : Nat) : Bytes :=
  let missing := rate - length % rate
  -- a single missing byte carries both marks
  if missing = 1 then [0x81] else 0x01 :: List.replicate (missing - 2) 0 ++ [0x80]

/-- The lane that eight bytes spell, the least significant first. -/
def laneOfBytes (bs : Bytes) : UInt64 :=
  bs.foldr (fun b lane => lane <<< 8 ||| b.toUInt64) 0

/-- The eight bytes of a lane, the least significant first. -/
def bytesOfLane (lane : UInt64) : Bytes :=
  [lane.toUInt8, (lane >>> 8).toUInt8, (lane >>> 16).toUInt8, (lane >>> 24).toUInt8,
   (lane >>> 32).toUInt8, (lane >>> 40).toUInt8, (lane >>> 48).toUInt8, (lane >>> 56).toUInt8]

/-- Takes in one block. -/
def absorb (s : State) (block : Bytes) : State :=
  let lanes := ((Bytes.chunks 8 block).map laneOfBytes).toArray
  permute (Vector.ofFn fun i => s[i] ^^^ lanes.getD i.val 0)

/-- The digest that a state gives out: its first four lanes. -/
def squeeze (s : State) : Digest where
  bytes := bytesOfLane s[0] ++ bytesOfLane s[1] ++ bytesOfLane s[2] ++ bytesOfLane s[3]
  length_bytes := rfl

/-- The digest of a message. -/
def hash : Hasher := fun message =>
  let blocks := Bytes.chunks rate (message ++ padding message.length)
  squeeze (blocks.foldl absorb State.zero)

end CallData.Keccak
