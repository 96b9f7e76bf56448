import MoneroWalletCore.Address.Keccak
import MoneroWalletCore.Foundation.Blocks

/-! Address validation as `address_check.cpp` computes it: Monero base58, the varint prefix,
the length of the body and the Keccak checksum. A `std::string` is a sequence of chars and a
`std::vector<uint8_t>` a list of bytes; a function that reports failure by `false` and fills an
output argument otherwise returns an option.
-/

namespace MoneroWalletCore.Address

-----------------------------------------------------------------------------------------
-- Base58 blocks
-----------------------------------------------------------------------------------------

def alphabet : List Char :=
  "123456789ABCDEFGHJKLMNPQRSTUVWXYZabcdefghijkmnopqrstuvwxyz".toList

/-- The number of characters that encode a block of 0 to 8 bytes. -/
def encSizes : List Nat := [0, 2, 3, 5, 6, 7, 9, 10, 11]

/-- `strchr(ALPHABET, c) - ALPHABET`. The search would also find the terminator, which the
source excludes; the list holds no terminator.
-/
def alphabetIndex (c : Char) : Option Nat := alphabet.idxOf? c

/-- The accumulator after reading a block's characters; `none` at a foreign character. The
128-bit accumulator holds any value of eleven characters, as `58 ^ 11 < 2 ^ 128`.
-/
def blockValue (s : List Char) : Option Nat :=
  s.foldlM (fun v c => (alphabetIndex c).map (fun digit => v * 58 + digit)) 0

/-- The `size` low bytes of `v`, most significant first. -/
def pushBytes (size v : Nat) : List UInt8 :=
  (List.range size).reverse.map fun i => UInt8.ofNat (v >>> (8 * i))

def decodeBlock (s : List Char) : Option (List UInt8) :=
  match encSizes.idxOf? s.length with
  | none => none
  | some size =>
      if size ≤ 0 then
        none
      else
        match blockValue s with
        | none => none
        | some v =>
            -- Only a block shorter than eight bytes is checked against its own range.
            if size < 8 ∧ 1 <<< (8 * size) ≤ v then none else some (pushBytes size v)

def base58Decode (s : List Char) : Option (List UInt8) :=
  Blocks.gather decodeBlock (Blocks.cut 11 s)

-----------------------------------------------------------------------------------------
-- The varint prefix
-----------------------------------------------------------------------------------------

/-- The loop of `readVarint` at the bytes from position `n` on. A shift near 64 drops the high
bits of its byte, as the unsigned shift does.
-/
def readVarintFrom (v : UInt64) (shift n : Nat) : List UInt8 → Option (UInt64 × Nat)
  | [] => none
  | byte :: rest =>
      if shift < 64 then
        let v := v ||| ((byte &&& 0x7f).toUInt64 <<< UInt64.ofNat shift)
        if byte &&& 0x80 = 0 then some (v, n + 1) else readVarintFrom v (shift + 7) (n + 1) rest
      else
        none

/-- The value read and the number of bytes it took. -/
def readVarint (b : List UInt8) : Option (UInt64 × Nat) := readVarintFrom 0 0 0 b

-----------------------------------------------------------------------------------------
-- Validation against a network
-----------------------------------------------------------------------------------------

/-- The prefixes of the standard, subaddress and integrated kinds on one network. -/
structure Prefixes where
  std : UInt64
  sub : UInt64
  int : UInt64
  deriving DecidableEq, Repr

def prefixesOf (network : String) : Option Prefixes :=
  if network = "mainnet" ∨ network = "regtest" then some ⟨18, 42, 19⟩
  else if network = "testnet" then some ⟨53, 63, 54⟩
  else if network = "stagenet" then some ⟨24, 36, 25⟩
  else none

/-- The check on the prefix and on the number of bytes before the checksum. -/
def bodyFits (p : Prefixes) (pre : UInt64) (n body : Nat) : Bool :=
  if pre = p.std ∨ pre = p.sub then body == n + 64
  else if pre = p.int then body == n + 72
  else false

def checksumMatches (b : List UInt8) (body : Nat) : Bool :=
  (keccak256 (b.take body)).take 4 == (b.drop body).take 4

def valid (address network : String) : Bool :=
  match prefixesOf network with
  | none => false
  | some p =>
      if address.length < 90 then
        false
      else
        match base58Decode address.toList with
        | none => false
        | some b =>
            if b.length < 4 then
              false
            else
              match readVarint b with
              | none => false
              | some (pre, n) =>
                  let body := b.length - 4
                  bodyFits p pre n body && checksumMatches b body

end MoneroWalletCore.Address
