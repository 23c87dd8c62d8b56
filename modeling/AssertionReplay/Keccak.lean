/-
Keccak-256: the sponge with a rate of 136 bytes over the 1600-bit permutation,
with the padding that starts with a single one bit.

A state is a list of 25 lanes of 64 bits; lane `(x, y)` stands at `x + 5 * y`,
and bytes enter a lane least significant first.
-/
import AssertionReplay.Text.Hex

namespace AssertionReplay.Keccak

abbrev State := List UInt64

def lane (s : State) (i : Nat) : UInt64 := s.getD i 0

def rotate (w : UInt64) (n : Nat) : UInt64 :=
  (w <<< n.toUInt64) ||| (w >>> ((64 - n) % 64).toUInt64)

/-- Mixes the parity of two neighbouring columns into every lane. -/
def theta (s : State) : State :=
  let column := (List.range 5).map fun x =>
    lane s x ^^^ lane s (x + 5) ^^^ lane s (x + 10) ^^^ lane s (x + 15) ^^^ lane s (x + 20)
  let mixed := (List.range 5).map fun x =>
    lane column ((x + 4) % 5) ^^^ rotate (lane column ((x + 1) % 5)) 1
  s.mapIdx fun i w => w ^^^ lane mixed (i % 5)

/-- How far each lane is rotated. -/
def rotations : List Nat :=
  [0, 1, 62, 28, 27, 36, 44, 6, 55, 20, 3, 10, 43, 25, 39, 41, 45, 15, 21, 8, 18, 2, 61, 56, 14]

/-- Rotates every lane and moves lane `(x, y)` to `(y, 2 * x + 3 * y)`. -/
def rhoPi (s : State) : State :=
  (List.range 25).map fun i =>
    let x := i % 5
    let y := i / 5
    let source := (x + 3 * y) % 5 + 5 * x
    rotate (lane s source) (rotations.getD source 0)

/-- Combines every lane with the next two of its row. -/
def chi (s : State) : State :=
  s.mapIdx fun i w =>
    let x := i % 5
    let row := i - x
    w ^^^ ((~~~ lane s (row + (x + 1) % 5)) &&& lane s (row + (x + 2) % 5))

def roundConstants : List UInt64 :=
  [0x0000000000000001, 0x0000000000008082, 0x800000000000808A, 0x8000000080008000,
    0x000000000000808B, 0x0000000080000001, 0x8000000080008081, 0x8000000000008009,
    0x000000000000008A, 0x0000000000000088, 0x0000000080008009, 0x000000008000000A,
    0x000000008000808B, 0x800000000000008B, 0x8000000000008089, 0x8000000000008003,
    0x8000000000008002, 0x8000000000000080, 0x000000000000800A, 0x800000008000000A,
    0x8000000080008081, 0x8000000000008080, 0x0000000080000001, 0x8000000080008008]

def round (s : State) (c : UInt64) : State :=
  match chi (rhoPi (theta s)) with
  | first :: rest => (first ^^^ c) :: rest
  | [] => []

def permute (s : State) : State :=
  roundConstants.foldl round s

/-- How many bytes enter the state at a time. -/
def rate : Nat := 136

/-- Eight bytes as a lane. -/
def laneOfBytes (bs : Bytes) : UInt64 :=
  bs.foldr (fun b w => (w <<< 8) ||| b.toUInt64) 0

/-- Cuts a list into pieces of `size`; `count` is the number of pieces. -/
def pieces {α : Type} (size : Nat) : (count : Nat) → List α → List (List α)
  | 0, _ => []
  | count + 1, xs => xs.take size :: pieces size count (xs.drop size)

/-- The message with its padding: a one bit, zeros, and a one bit at the end of the block. -/
def pad (message : Bytes) : Bytes :=
  let fill := rate - message.length % rate
  if fill == 1 then message ++ [0x81]
  else message ++ 0x01 :: (List.replicate (fill - 2) 0 ++ [0x80])

def absorb (s : State) (block : Bytes) : State :=
  let lanes := (pieces 8 (rate / 8) block).map laneOfBytes
  permute (s.mapIdx fun i w => w ^^^ lane lanes i)

/-- The bytes of a lane, least significant first. -/
def bytesOfLane (w : UInt64) : Bytes :=
  (List.range 8).map fun i => (w >>> (8 * i).toUInt64).toUInt8

def hash256 (message : Bytes) : Bytes :=
  let padded := pad message
  let blocks := pieces rate (padded.length / rate) padded
  let s := blocks.foldl absorb (List.replicate 25 0)
  (s.take 4).flatMap bytesOfLane

end AssertionReplay.Keccak
