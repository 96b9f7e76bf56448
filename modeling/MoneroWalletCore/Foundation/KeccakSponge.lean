import MoneroWalletCore.Foundation.Blocks
import Mathlib.Data.Nat.Digits.Defs

/-! Keccak-256 as its specification states it: the permutation by its five steps on an array of
five by five lanes, and the sponge over blocks of 136 bytes with the original padding.
-/

namespace Keccak

/-- The state array, a lane at each column and row. -/
abbrev Lanes := Fin 5 → Fin 5 → BitVec 64

-----------------------------------------------------------------------------------------
-- The permutation
-----------------------------------------------------------------------------------------

/-- The parity of a column. -/
def parity (A : Lanes) (x : Fin 5) : BitVec 64 := A x 0 ^^^ A x 1 ^^^ A x 2 ^^^ A x 3 ^^^ A x 4

def theta (A : Lanes) : Lanes := fun x y =>
  A x y ^^^ (parity A (x - 1) ^^^ (parity A (x + 1)).rotateLeft 1)

/-- The positions that rho visits, but for the origin. -/
def walk : Nat → Fin 5 × Fin 5
  | 0 => (1, 0)
  | t + 1 => ((walk t).2, 2 * (walk t).1 + 3 * (walk t).2)

/-- The rotation of a position: a triangular number for the step that visits it. -/
def offset (x y : Fin 5) : Nat :=
  match (List.range 24).find? (fun t => walk t = (x, y)) with
  | some t => (t + 1) * (t + 2) / 2
  | none => 0

def rho (A : Lanes) : Lanes := fun x y => (A x y).rotateLeft (offset x y)

def pi (A : Lanes) : Lanes := fun x y => A (x + 3 * y) x

def chi (A : Lanes) : Lanes := fun x y => A x y ^^^ (~~~(A (x + 1) y) &&& A (x + 2) y)

/-- The shift register behind the round constants, with feedback at the bits 0, 4, 5 and 6. -/
def register : Nat → BitVec 8
  | 0 => 1
  | t + 1 => (register t) <<< 1 ^^^ if (register t).msb then 0x71 else 0

/-- The constant of a round: a register bit at each position one below a power of two. -/
def roundConstant (round : Nat) : BitVec 64 :=
  (List.range 7).foldl
    (fun constant j =>
      constant ||| if (register (j + 7 * round)).getLsbD 0 then 1 <<< (2 ^ j - 1) else 0)
    0

def iota (constant : BitVec 64) (A : Lanes) : Lanes := fun x y =>
  if x = 0 ∧ y = 0 then A x y ^^^ constant else A x y

def round (A : Lanes) (constant : BitVec 64) : Lanes := iota constant (chi (pi (rho (theta A))))

/-- Keccak-f[1600]. -/
def permute (A : Lanes) : Lanes := ((List.range 24).map roundConstant).foldl round A

-----------------------------------------------------------------------------------------
-- The sponge
-----------------------------------------------------------------------------------------

/-- The number of bytes that a block takes. -/
def blockBytes : Nat := 136

/-- What is appended to a message of some length: a one bit, zeros, and a one bit at the end of
the block. In a single byte the two bits share it. -/
def padding (length : Nat) : List UInt8 :=
  let room := blockBytes - length % blockBytes
  if room = 1 then [0x81] else 0x01 :: List.replicate (room - 2) 0 ++ [0x80]

/-- The little-endian number of some bytes. -/
def littleEndian (bytes : List UInt8) : Nat := Nat.ofDigits 256 (bytes.map UInt8.toNat)

/-- A block xored into the lanes, in rows from the origin on; the capacity is left alone. -/
def absorb (A : Lanes) (block : List UInt8) : Lanes := fun x y =>
  A x y ^^^ BitVec.ofNat 64 (littleEndian ((block.drop (8 * (5 * y.val + x.val))).take 8))

/-- A byte of a lane. -/
def laneByte (lane : BitVec 64) (i : Nat) : UInt8 := UInt8.ofNat (lane.toNat / 256 ^ i)

/-- The digest: the first four lanes. -/
def digest (A : Lanes) : List UInt8 :=
  ([0, 1, 2, 3] : List (Fin 5)).flatMap fun x => (List.range 8).map (laneByte (A x 0))

def hash (message : List UInt8) : List UInt8 :=
  digest
    ((Blocks.cut blockBytes (message ++ padding message.length)).foldl
      (fun A block => permute (absorb A block)) fun _ _ => 0)

end Keccak
