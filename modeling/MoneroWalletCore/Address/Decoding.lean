import MoneroWalletCore.Address.Spelling

/-! The decoder against the standard encoding of whole strings: it undoes the encoding of every
byte string, and what it accepts besides are strings with a full block beyond eight bytes.
-/

namespace MoneroWalletCore.Address

/-- The decoder undoes the encoding of every byte string, which takes eleven characters for a
block of eight bytes and the table's number for the tail.
-/
theorem decode_undoes_encoding (bytes : List UInt8)
    : base58Decode (base58Encode bytes) = some bytes
      ∧ (base58Encode bytes).length
          = 11 * (bytes.length / 8) + encSizes.getD (bytes.length % 8) 0 :=
  ⟨base58Decode_base58Encode bytes, length_base58Encode bytes⟩

/-- A block's value is below what its bytes hold, unless it is a full block that does not fit. -/
theorem decodeBlock_fits {block : List Char} {out : List UInt8} {v : Nat}
    (decoded : decodeBlock block = some out) (read : blockValue block = some v)
    : v < 2 ^ (8 * out.length) ↔ (block.length = 11 → v < 2 ^ 64) := by
  obtain ⟨size, w, positive, bound, length, readAgain, inRange, rfl⟩ :=
    decodeBlock_eq_some.mp decoded
  obtain rfl := Option.some.inj (read.symm.trans readAgain)
  have power : 2 ^ (8 * size) = 256 ^ size := pow_mul 2 8 size
  rw [length_pushBytes, power, length, (encSizes_bounds positive bound).2.2]
  rcases Nat.lt_or_ge size 8 with small | large
  · exact iff_of_true (inRange small) fun full => absurd full (by omega)
  · obtain rfl : size = 8 := by omega
    have eight : (256 : Nat) ^ 8 = 2 ^ 64 := by decide
    simp [eight]

/-- Every block of a decoded string decodes. -/
theorem decodeBlock_of_decoded {s : List Char} {b : List UInt8} (decoded : base58Decode s = some b)
    {block : List Char} (member : block ∈ Blocks.cut 11 s)
    : ∃ out v, decodeBlock block = some out ∧ blockValue block = some v := by
  obtain ⟨outs, related, -⟩ := base58Decode_eq_some.mp decoded
  obtain ⟨lengths, heads⟩ := List.forall₂_iff_zip.mp related
  obtain ⟨i, within, rfl⟩ := List.getElem_of_mem member
  have head := heads (List.mem_iff_getElem.mpr ⟨i, by simpa [← lengths] using within, List.getElem_zip⟩)
  obtain ⟨_, v, -, -, -, read, -, -⟩ := decodeBlock_eq_some.mp head
  exact ⟨_, v, head, read⟩

/-- An accepted string is the encoding of the bytes it decodes to, and none of its blocks has a
value beyond its bytes, exactly when its full blocks fit eight bytes; such strings are told
apart by their bytes.
-/
theorem decoded_encodes_iff_fits {s : List Char} {b : List UInt8}
    (decoded : base58Decode s = some b)
    : (base58Encode b = s ↔ FullBlocksFit s)
      ∧ ((∀ block ∈ Blocks.cut 11 s,
          ∀ out ∈ decodeBlock block, ∀ v ∈ blockValue block, v < 2 ^ (8 * out.length))
        ↔ FullBlocksFit s)
      ∧ ∀ t, base58Decode t = some b → FullBlocksFit s → FullBlocksFit t → s = t := by
  refine ⟨base58Encode_decoded_iff decoded, ?_, fun t again fits fits' => ?_⟩
  · constructor
    · intro within block member full v read
      obtain ⟨out, _, head, _⟩ := decodeBlock_of_decoded decoded member
      exact (decodeBlock_fits head read).mp (within block member out head v read) full
    · intro fits block member out head v read
      exact (decodeBlock_fits head read).mpr fun full => fits block member full v read
  · rw [← (base58Encode_decoded_iff decoded).mpr fits, ← (base58Encode_decoded_iff again).mpr fits']

/-- The eleven zero digits, which are the encoding of eight zero bytes. -/
theorem decoded_encodes_iff_fits_zeros
    : let s := List.replicate 11 '1'
      (base58Encode (List.replicate 8 0) = s ↔ FullBlocksFit s)
      ∧ ((∀ block ∈ Blocks.cut 11 s,
          ∀ out ∈ decodeBlock block, ∀ v ∈ blockValue block, v < 2 ^ (8 * out.length))
        ↔ FullBlocksFit s)
      ∧ ∀ t, base58Decode t = some (List.replicate 8 0) → FullBlocksFit s → FullBlocksFit t
        → s = t :=
  decoded_encodes_iff_fits (by decide)

/-- The largest block of eleven digits is accepted, with the low eight bytes of its value. -/
theorem largest_block_truncated
    : ∃ b, base58Decode (List.replicate 11 'z') = some b
        ∧ base58Encode b ≠ List.replicate 11 'z'
        ∧ blockValue (List.replicate 11 'z') = some (58 ^ 11 - 1)
        ∧ 2 ^ (8 * b.length) ≤ 58 ^ 11 - 1 :=
  ⟨[0x5a, 0xc2, 0x64, 0x55, 0x4f, 0x03, 0x27, 0xff], by decide, by decide, by decide, by decide⟩

end MoneroWalletCore.Address
