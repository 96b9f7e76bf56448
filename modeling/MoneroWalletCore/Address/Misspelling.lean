import MoneroWalletCore.Address.Spelling

/-! Which accepted strings are misspelt addresses.
The checksum covers decoded bytes, so it cannot tell two strings apart that decode alike. A
full block's value may exceed eight bytes by a multiple of `2 ^ 64`, which the decoder drops.
-/

namespace MoneroWalletCore.Address

-----------------------------------------------------------------------------------------
-- The first byte of a string
-----------------------------------------------------------------------------------------

/-- The first block of a long decoded string gives the first byte. -/
theorem first_byte_of_decoded {s : List Char} {b : List UInt8} (long : 11 ≤ s.length)
    (decoded : base58Decode s = some b)
    : ∃ v byte rest,
        (Blocks.cut 11 s).head? = some (s.take 11)
        ∧ blockValue (s.take 11) = some v
        ∧ b = byte :: rest
        ∧ byte = UInt8.ofNat (v / 2 ^ 56) := by
  obtain ⟨outs, related, rfl⟩ := base58Decode_eq_some.mp decoded
  have nonempty : s ≠ [] := List.ne_nil_of_length_pos (by omega)
  rw [Blocks.cut_of_ne_nil (by omega) nonempty] at related ⊢
  cases related with
  | @cons _ out _ later head tail =>
      obtain ⟨size, v, positive, bound, length, read, -, rfl⟩ := decodeBlock_eq_some.mp head
      have full : (s.take 11).length = 11 := by rw [List.length_take]; omega
      obtain rfl := (encSizes_bounds positive bound).2.2.mp (length.symm.trans full)
      refine ⟨v, UInt8.ofNat (v / 2 ^ 56), pushBytes 7 v ++ later.flatten, rfl, read, ?_, rfl⟩
      rw [List.flatten_cons, pushBytes, List.range_succ, List.reverse_append,
        List.reverse_singleton, List.singleton_append, List.map_cons, List.cons_append,
        Nat.shiftRight_eq_div_pow]
      rfl

/-- Within eight bytes, the top bit of the first byte is the top bit of the block. -/
theorem first_byte_small_iff {v : Nat} (fits : v < 2 ^ 64)
    : UInt8.ofNat (v / 2 ^ 56) < 0x80 ↔ v < 2 ^ 63 := by
  have bound : v / 2 ^ 56 < 256 := by omega
  rw [UInt8.lt_iff_toNat_lt, UInt8.toNat_ofNat_of_lt' bound]
  change v / 2 ^ 56 < 128 ↔ v < 2 ^ 63
  omega

-----------------------------------------------------------------------------------------
-- Accepted strings whose blocks are in range
-----------------------------------------------------------------------------------------

/-- Accepted bytes with a one-byte prefix are the bytes of an address. -/
theorem addressBytes_of_checks {network : Network} {p : Prefixes} {byte : UInt8}
    {rest : List UInt8} {pre : UInt64} {n : Nat}
    (known : prefixesOf network.name = some p) (small : byte < 0x80)
    (enough : 4 ≤ (byte :: rest).length)
    (read : readVarint (byte :: rest) = some (pre, n))
    (fits : bodyFits p pre n ((byte :: rest).length - 4) = true)
    (checksum : checksumMatches (byte :: rest) ((byte :: rest).length - 4) = true)
    : ∃ kind payload, byte :: rest = addressBytes network kind payload := by
  obtain ⟨kind, named, length⟩ := bodyFits_name known fits
  rw [readVarint_of_small rest small] at read
  simp only [Option.some.injEq, Prod.mk.injEq] at read
  obtain ⟨rfl, rfl⟩ := read
  have same : byte = prefixByte network kind := UInt8.toUInt64_inj.mp named
  rw [List.length_cons] at enough length
  have size : (rest.take kind.payloadLength).length = kind.payloadLength := by
    rw [List.length_take]
    omega
  refine ⟨kind, ⟨⟨rest.take kind.payloadLength⟩, size⟩, ?_⟩
  have covered : (byte :: rest).take (1 + kind.payloadLength)
      = prefixByte network kind :: rest.take kind.payloadLength := by
    rw [Nat.add_comm, List.take_succ_cons, same]
  have trailing : ((byte :: rest).drop (1 + kind.payloadLength)).length = 4 := by
    rw [List.length_drop, List.length_cons]
    omega
  rw [List.length_cons, length, checksumMatches, beq_iff_eq, covered,
    List.take_of_length_le (Nat.le_of_eq trailing)] at checksum
  calc byte :: rest
      = (byte :: rest).take (1 + kind.payloadLength)
          ++ (byte :: rest).drop (1 + kind.payloadLength) := (List.take_append_drop _ _).symm
    _ = (prefixByte network kind :: rest.take kind.payloadLength)
          ++ (keccak256 (prefixByte network kind :: rest.take kind.payloadLength)).take 4 := by
        rw [covered, checksum]
    _ = addressBytes network kind ⟨⟨rest.take kind.payloadLength⟩, size⟩ := rfl

/-- An accepted string is the spelling of an address exactly when its blocks are in range.
Witness: an address starts with a small prefix byte and re-encodes to itself; conversely a
string in range is the encoding of its bytes, and its prefix is the one byte in front.
-/
theorem spelled_iff_of_accepted {network : Network} {s : String}
    (accepted : valid s network.name = true)
    : (∃ kind payload, s.toList = spelling network kind payload) ↔ BlocksInRange s.toList := by
  obtain ⟨p, b, pre, n, known, long, decoded, enough, read, fits, checksum⟩ :=
    valid_eq_true.mp accepted
  obtain ⟨v, byte, rest, first, value, rfl, front⟩ :=
    first_byte_of_decoded (by rw [String.length_toList]; omega) decoded
  have inCut : s.toList.take 11 ∈ Blocks.cut 11 s.toList := List.mem_of_head? first
  have full : (s.toList.take 11).length = 11 := by
    rw [List.length_take, String.length_toList]
    omega
  constructor
  · rintro ⟨kind, payload, spelled⟩
    have same := decoded
    rw [spelled, spelling, base58Decode_base58Encode] at same
    have bytes : addressBytes network kind payload = byte :: rest := Option.some.inj same
    have fit : FullBlocksFit s.toList := by
      rw [← base58Encode_decoded_iff decoded, ← bytes, spelled, spelling]
    refine ⟨fit, ?_⟩
    intro block isFirst w readBlock
    obtain rfl := Option.some.inj (first.symm.trans isFirst)
    obtain rfl := Option.some.inj (value.symm.trans readBlock)
    have small : byte < 0x80 := by
      have head : byte = prefixByte network kind := (List.cons.inj bytes).1.symm
      exact head ▸ prefixByte_small network kind
    exact (first_byte_small_iff (fit _ inCut full v value)).mp (front ▸ small)
  · rintro ⟨fit, inRange⟩
    have small : byte < 0x80 :=
      front ▸ (first_byte_small_iff (fit _ inCut full v value)).mpr (inRange _ first v value)
    obtain ⟨kind, payload, bytes⟩ :=
      addressBytes_of_checks known small enough read fits checksum
    refine ⟨kind, payload, ?_⟩
    rw [spelling, ← bytes]
    exact ((base58Encode_decoded_iff decoded).mpr fit).symm

/-- What validation reads off an address is its prefix and its payload. -/
theorem denoted_spelling {network : Network} {kind : Kind}
    {payload : Vector UInt8 kind.payloadLength} {s : String}
    (spelled : s.toList = spelling network kind payload)
    : denoted s = some ((prefixByte network kind).toUInt64, payload.toList) := by
  obtain ⟨read, size, -⟩ := checks_addressBytes network kind payload
  simp only [denoted, spelled, spelling, base58Decode_base58Encode, Option.bind_eq_bind,
    Option.bind_some, read, size]
  have covered : 1 + kind.payloadLength = (prefixByte network kind :: payload.toList).length := by
    simp [Nat.add_comm]
  rw [addressBytes, covered, List.take_left]
  rfl

/-- Among the strings in range, what validation reads off determines the string. -/
theorem eq_of_denoted {network : Network} {s t : String}
    (hs : ∃ kind payload, s.toList = spelling network kind payload)
    (ht : ∃ kind payload, t.toList = spelling network kind payload)
    (same : denoted s = denoted t)
    : s = t := by
  obtain ⟨kind, payload, spelled⟩ := hs
  obtain ⟨kind', payload', spelled'⟩ := ht
  rw [denoted_spelling spelled, denoted_spelling spelled'] at same
  simp only [Option.some.injEq, Prod.mk.injEq] at same
  obtain rfl := prefixByte_injective same.1
  have equal : payload = payload' := Vector.toList_inj.mp same.2
  rw [← String.toList_inj, spelled, spelled', equal]

/-- An accepted string is a properly spelt address exactly when the value of its first full
block is below `2 ^ 63` and that of every other full block below `2 ^ 64`. Such a string has
95 or 106 characters, and no other such string is accepted for the same kind and payload.
-/
theorem accepted_spelled_iff_inRange {network : Network} {s : String}
    (accepted : valid s network.name = true)
    : ((∃ kind payload, s.toList = spelling network kind payload) ↔ BlocksInRange s.toList)
      ∧ (BlocksInRange s.toList → s.length = 95 ∨ s.length = 106)
      ∧ ∀ t : String,
          valid t network.name = true
          → BlocksInRange s.toList
          → BlocksInRange t.toList
          → denoted s = denoted t
          → s = t := by
  have spelled := spelled_iff_of_accepted accepted
  refine ⟨spelled, ?_, ?_⟩
  · intro inRange
    obtain ⟨kind, payload, same⟩ := spelled.mpr inRange
    rw [← String.length_toList, same, length_spelling]
    cases kind <;> simp
  · intro t accepted' inRange inRange' same
    exact eq_of_denoted (spelled.mpr inRange) ((spelled_iff_of_accepted accepted').mpr inRange')
      same

theorem accepted_spelled_iff_inRange_zeros
    : let s := String.ofList (spelling .mainnet .standard (Vector.replicate 64 0))
      ((∃ kind payload, s.toList = spelling .mainnet kind payload) ↔ BlocksInRange s.toList)
      ∧ (BlocksInRange s.toList → s.length = 95 ∨ s.length = 106)
      ∧ ∀ t : String,
          valid t Network.mainnet.name = true
          → BlocksInRange s.toList
          → BlocksInRange t.toList
          → denoted s = denoted t
          → s = t :=
  accepted_spelled_iff_inRange
    (spelling_accepted .mainnet .standard (Vector.replicate 64 0))

/-- The address of the all-zero payload with its first block raised by `2 ^ 64`. -/
def misspelt : String :=
  "nq9JpBN9cJj1111111111111111111111111111111111111111111111111111111111111111111111111111112KhNi4"

theorem keccak256_zeros
    : (keccak256 (18 :: List.replicate 64 0)).take 4 = [0x33, 0xbb, 0x94, 0x41] := by
  simp only [keccak256, keccakf_eq_evaluated]
  decide +kernel

theorem valid_of_zeros {s : String} (long : 90 ≤ s.length)
    (decoded : base58Decode s.toList = some (18 :: List.replicate 64 0 ++ [0x33, 0xbb, 0x94, 0x41]))
    : valid s Network.mainnet.name = true := by
  refine valid_eq_true.mpr
    ⟨⟨18, 42, 19⟩, 18 :: List.replicate 64 0 ++ [0x33, 0xbb, 0x94, 0x41], 18, 1, rfl, long,
      decoded, by decide, by decide, by decide, ?_⟩
  change ((keccak256 (18 :: List.replicate 64 0)).take 4 == [0x33, 0xbb, 0x94, 0x41]) = true
  rw [keccak256_zeros]
  decide

/-- The address of the all-zero payload. -/
def zeroAddress : String :=
  "41d7FXjswpK1111111111111111111111111111111111111111111111111111111111111111111111111111112KhNi4"

theorem zeroAddress_valid : valid zeroAddress Network.mainnet.name = true :=
  valid_of_zeros (by decide) (by decide +kernel)

/-- A misspelt address is accepted: it decodes to the bytes of the genuine one. -/
theorem misspelt_accepted
    : valid misspelt Network.mainnet.name = true
      ∧ ¬∃ kind payload, misspelt.toList = spelling .mainnet kind payload := by
  have accepted : valid misspelt Network.mainnet.name = true :=
    valid_of_zeros (by decide) (by decide +kernel)
  refine ⟨accepted, ?_⟩
  rw [spelled_iff_of_accepted accepted]
  decide +kernel

end MoneroWalletCore.Address
