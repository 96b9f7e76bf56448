import MoneroWalletCore.Address.AddressCheck
import MoneroWalletCore.Foundation.FixedWidth
import Mathlib.Tactic.IntervalCases

/-! The standard Monero base58 encoding, and how the module's decoder relates to it.
A block of bytes is a base-256 numeral written as a base-58 numeral of a fixed width. The
decoder inverts every encoded block; the encoder inverts a decoded block only when the
block's value fits its bytes, which the decoder checks for all sizes but eight.
-/

namespace MoneroWalletCore.Address

-----------------------------------------------------------------------------------------
-- The encoding
-----------------------------------------------------------------------------------------

/-- The character of a base-58 digit. -/
def symbol (digit : Nat) : Char := alphabet.getD digit '1'

/-- The big-endian value of a block of bytes. -/
def bytesValue (bytes : List UInt8) : Nat := FixedWidth.value 256 (bytes.map UInt8.toNat)

/-- A block of 1 to 8 bytes, padded with the zero digit to its fixed number of characters. -/
def encodeBlock (bytes : List UInt8) : List Char :=
  (FixedWidth.digits 58 (encSizes.getD bytes.length 0) (bytesValue bytes)).map symbol

def base58Encode (bytes : List UInt8) : List Char :=
  ((Blocks.cut 8 bytes).map encodeBlock).flatten

-----------------------------------------------------------------------------------------
-- Characters and digits
-----------------------------------------------------------------------------------------

/-- The alphabet has no repeated character, so a digit's character gives the digit back. -/
theorem alphabetIndex_symbol {digit : Nat} (inBase : digit < 58)
    : alphabetIndex (symbol digit) = some digit := by
  have table : ∀ d : Fin 58, alphabetIndex (symbol d) = some d.val := by decide
  exact table ⟨digit, inBase⟩

/-- An accepted character is the character of its digit. -/
theorem symbol_of_alphabetIndex {c : Char} {digit : Nat} (found : alphabetIndex c = some digit)
    : digit < 58 ∧ symbol digit = c := by
  obtain ⟨bound, same, -⟩ := List.findIdx?_eq_some_iff_getElem.mp found
  have size : alphabet.length = 58 := by decide
  refine ⟨size ▸ bound, ?_⟩
  rw [symbol, List.getD_eq_getElem?_getD, List.getElem?_eq_getElem bound, Option.getD_some]
  exact beq_iff_eq.mp same

/-- The fold from any accumulator reads exactly the strings of base-58 digits; induction on
the string. -/
theorem foldlM_blockValue {s : List Char} {before v : Nat}
    : s.foldlM (fun v c => (alphabetIndex c).map (fun digit => v * 58 + digit)) before = some v
      ↔ ∃ numeral,
          FixedWidth.InBase 58 numeral
          ∧ s = numeral.map symbol
          ∧ v = numeral.foldl (fun total digit => total * 58 + digit) before := by
  induction s generalizing before with
  | nil =>
      constructor
      · intro read
        exact ⟨[], by simp [FixedWidth.InBase], rfl, by simpa using read.symm⟩
      · rintro ⟨numeral, -, empty, value⟩
        have none : numeral = [] := by simpa using empty.symm
        simp [value, none]
  | cons c rest ih =>
      constructor
      · intro read
        cases found : alphabetIndex c with
        | none => simp [found] at read
        | some digit =>
            obtain ⟨inBase, char⟩ := symbol_of_alphabetIndex found
            simp only [List.foldlM_cons, found, Option.map_some, Option.bind_eq_bind,
              Option.bind_some, ih] at read
            obtain ⟨numeral, later, same, value⟩ := read
            refine ⟨digit :: numeral, ?_, by simp [char, same], value⟩
            intro other member
            rcases List.mem_cons.mp member with rfl | tail
            · exact inBase
            · exact later other tail
      · rintro ⟨numeral, inBase, same, value⟩
        cases numeral with
        | nil => simp at same
        | cons digit numeral =>
            obtain ⟨rfl, rfl⟩ := List.cons.inj same
            have found := alphabetIndex_symbol (inBase digit (by simp))
            simp only [List.foldlM_cons, found, Option.map_some, Option.bind_eq_bind,
              Option.bind_some, ih]
            exact ⟨numeral, fun other member => inBase other (by simp [member]), rfl, value⟩

/-- A block has a value exactly when it is a string of base-58 digits. -/
theorem blockValue_eq_some {s : List Char} {v : Nat}
    : blockValue s = some v
      ↔ ∃ numeral,
          FixedWidth.InBase 58 numeral
          ∧ s = numeral.map symbol
          ∧ v = FixedWidth.value 58 numeral :=
  foldlM_blockValue

theorem blockValue_lt {s : List Char} {v : Nat} (read : blockValue s = some v)
    : v < 58 ^ s.length := by
  obtain ⟨numeral, inBase, rfl, rfl⟩ := blockValue_eq_some.mp read
  simpa using FixedWidth.value_lt inBase

-----------------------------------------------------------------------------------------
-- Bytes and digits
-----------------------------------------------------------------------------------------

/-- The shifts of the source write the base-256 digits, by induction on the size. -/
theorem pushBytes_eq (size v : Nat)
    : pushBytes size v = (FixedWidth.digits 256 size v).map UInt8.ofNat := by
  induction size with
  | zero => rfl
  | succ size ih =>
      have shifted : v >>> (8 * size) = v / 256 ^ size := by
        rw [Nat.shiftRight_eq_div_pow, pow_mul, show (2 : Nat) ^ 8 = 256 from rfl]
      have low : UInt8.ofNat (v / 256 ^ size) = UInt8.ofNat (v / 256 ^ size % 256) := by
        simp [← UInt8.toNat_inj]
      rw [pushBytes, List.range_succ, List.reverse_append, List.reverse_singleton,
        List.singleton_append, List.map_cons, FixedWidth.digits, List.map_cons, ← ih, shifted, low,
        pushBytes]

theorem bytes_inBase (bytes : List UInt8) : FixedWidth.InBase 256 (bytes.map UInt8.toNat) := by
  intro digit member
  obtain ⟨byte, -, rfl⟩ := List.mem_map.mp member
  exact byte.toNat_lt

theorem bytesValue_lt (bytes : List UInt8) : bytesValue bytes < 256 ^ bytes.length := by
  simpa only [bytesValue, List.length_map] using FixedWidth.value_lt (bytes_inBase bytes)

/-- Writing a block's value as bytes gives the block back. -/
theorem pushBytes_bytesValue (bytes : List UInt8)
    : pushBytes bytes.length (bytesValue bytes) = bytes := by
  have numeral := FixedWidth.digits_value (bytes_inBase bytes)
  rw [List.length_map] at numeral
  rw [pushBytes_eq, bytesValue, numeral, List.map_map]
  have same : UInt8.ofNat ∘ UInt8.toNat = id := by
    funext byte
    exact UInt8.ofNat_toNat
  rw [same, List.map_id]

@[simp] theorem length_pushBytes (size v : Nat) : (pushBytes size v).length = size := by
  simp [pushBytes]

/-- Reading written bytes keeps what fits them. -/
theorem bytesValue_pushBytes (size v : Nat) : bytesValue (pushBytes size v) = v % 256 ^ size := by
  have bound := FixedWidth.digits_inBase (by omega : 0 < 256) size v
  have same : (pushBytes size v).map UInt8.toNat = FixedWidth.digits 256 size v := by
    rw [pushBytes_eq, List.map_map]
    refine (List.map_congr_left ?_).trans (List.map_id _)
    intro digit member
    exact Nat.mod_eq_of_lt (bound digit member)
  rw [bytesValue, same, FixedWidth.value_digits]

-----------------------------------------------------------------------------------------
-- One block, both ways
-----------------------------------------------------------------------------------------

/-- The size table is injective, so an encoded size determines the number of bytes. -/
theorem idxOf_encSizes {size : Nat} (bound : size ≤ 8)
    : encSizes.idxOf? (encSizes.getD size 0) = some size := by
  have table : ∀ k : Fin 9, encSizes.idxOf? (encSizes.getD k 0) = some k.val := by decide
  exact table ⟨size, by omega⟩

theorem encSizes_of_idxOf {n size : Nat} (found : encSizes.idxOf? n = some size)
    : size ≤ 8 ∧ encSizes.getD size 0 = n := by
  obtain ⟨bound, same, -⟩ := List.findIdx?_eq_some_iff_getElem.mp found
  have count : encSizes.length = 9 := rfl
  refine ⟨by omega, ?_⟩
  rw [List.getD_eq_getElem?_getD, List.getElem?_eq_getElem bound, Option.getD_some]
  exact beq_iff_eq.mp same

/-- Every block of bytes fits the characters that the table gives it. -/
theorem bytesValue_fits {bytes : List UInt8} (short : bytes.length ≤ 8)
    : bytesValue bytes < 58 ^ encSizes.getD bytes.length 0 := by
  have table : ∀ k : Fin 9, 256 ^ k.val ≤ 58 ^ encSizes.getD k 0 := by decide
  exact Nat.lt_of_lt_of_le (bytesValue_lt bytes) (table ⟨bytes.length, by omega⟩)

@[simp] theorem length_encodeBlock (bytes : List UInt8)
    : (encodeBlock bytes).length = encSizes.getD bytes.length 0 := by
  simp [encodeBlock]

theorem blockValue_encodeBlock {bytes : List UInt8} (short : bytes.length ≤ 8)
    : blockValue (encodeBlock bytes) = some (bytesValue bytes) := by
  refine blockValue_eq_some.mpr
    ⟨_, FixedWidth.digits_inBase (by omega : 0 < 58) _ (bytesValue bytes), rfl, ?_⟩
  exact (FixedWidth.value_digits_of_lt (bytesValue_fits short)).symm

/-- What a successful block decoding computed. The range check is absent for eight bytes. -/
theorem decodeBlock_eq_some {s : List Char} {out : List UInt8}
    : decodeBlock s = some out
      ↔ ∃ size v,
          0 < size ∧ size ≤ 8
          ∧ s.length = encSizes.getD size 0
          ∧ blockValue s = some v
          ∧ (size < 8 → v < 256 ^ size)
          ∧ out = pushBytes size v := by
  have range (size v : Nat) : 1 <<< (8 * size) ≤ v ↔ ¬v < 256 ^ size := by
    rw [Nat.shiftLeft_eq, Nat.one_mul, pow_mul, show (2 : Nat) ^ 8 = 256 from rfl, not_lt]
  constructor
  · intro decoded
    unfold decodeBlock at decoded
    split at decoded
    · contradiction
    · rename_i size found
      obtain ⟨bound, length⟩ := encSizes_of_idxOf found
      split at decoded
      · contradiction
      · rename_i positive
        split at decoded
        · contradiction
        · rename_i v read
          split at decoded
          · contradiction
          · rename_i inRange
            refine ⟨size, v, by omega, bound, length.symm, read, ?_, (Option.some.inj decoded).symm⟩
            intro small
            by_contra large
            exact inRange ⟨small, (range size v).mpr large⟩
  · rintro ⟨size, v, positive, bound, length, read, inRange, rfl⟩
    have found : encSizes.idxOf? s.length = some size := length ▸ idxOf_encSizes bound
    have kept : ¬(size < 8 ∧ 1 <<< (8 * size) ≤ v) :=
      fun ⟨small, large⟩ => (range size v).mp large (inRange small)
    simp only [decodeBlock, found, read]
    rw [if_neg (by omega), if_neg kept]

/-- Decoding inverts encoding on every nonempty block of at most eight bytes. -/
theorem decodeBlock_encodeBlock {bytes : List UInt8} (nonempty : bytes ≠ [])
    (short : bytes.length ≤ 8)
    : decodeBlock (encodeBlock bytes) = some bytes := by
  refine decodeBlock_eq_some.mpr
    ⟨bytes.length, bytesValue bytes, List.length_pos_iff.mpr nonempty, short, by simp,
      blockValue_encodeBlock short, fun _ => bytesValue_lt bytes, ?_⟩
  exact (pushBytes_bytesValue bytes).symm

/-- Encoding inverts decoding on a block whose value fits the bytes it decodes to. -/
theorem encodeBlock_decodeBlock {s : List Char} {out : List UInt8} {v : Nat}
    (decoded : decodeBlock s = some out) (read : blockValue s = some v)
    (fits : v < 256 ^ out.length)
    : encodeBlock out = s := by
  obtain ⟨size, w, -, -, length, readAgain, -, rfl⟩ := decodeBlock_eq_some.mp decoded
  have same : w = v := Option.some.inj (readAgain.symm.trans read)
  subst same
  obtain ⟨numeral, inBase, rfl, rfl⟩ := blockValue_eq_some.mp read
  rw [length_pushBytes] at fits
  rw [List.length_map] at length
  rw [encodeBlock, bytesValue_pushBytes, Nat.mod_eq_of_lt fits, length_pushBytes, ← length,
    FixedWidth.digits_value inBase]

-----------------------------------------------------------------------------------------
-- Whole strings
-----------------------------------------------------------------------------------------

/-- Every full block of the string has a value that eight bytes can hold. -/
def FullBlocksFit (s : List Char) : Prop :=
  ∀ block ∈ Blocks.cut 11 s, block.length = 11 → ∀ v ∈ blockValue block, v < 2 ^ 64

instance (s : List Char) : Decidable (FullBlocksFit s) :=
  inferInstanceAs (Decidable (∀ _ ∈ Blocks.cut 11 s, _))

theorem base58Decode_eq_some {s : List Char} {b : List UInt8}
    : base58Decode s = some b
      ↔ ∃ outs,
          List.Forall₂ (fun block out => decodeBlock block = some out) (Blocks.cut 11 s) outs
          ∧ b = outs.flatten :=
  Blocks.gather_eq_some

/-- A string that decodes is written in the alphabet. Induction on the decoded blocks. -/
theorem mem_alphabet_of_decoded {s : List Char} {b : List UInt8} (decoded : base58Decode s = some b)
    : ∀ c ∈ s, c ∈ alphabet := by
  obtain ⟨outs, related, -⟩ := base58Decode_eq_some.mp decoded
  rw [← Blocks.flatten_cut (by decide : 0 < 11) s]
  generalize Blocks.cut 11 s = blocks at related
  induction related with
  | nil => simp
  | @cons block out _ _ read _ ih =>
      intro c member
      rw [List.flatten_cons, List.mem_append] at member
      rcases member with here | later
      · obtain ⟨_, _, _, _, _, value, -⟩ := decodeBlock_eq_some.mp read
        obtain ⟨numeral, inBase, rfl, -⟩ := blockValue_eq_some.mp value
        obtain ⟨digit, isDigit, rfl⟩ := List.mem_map.mp here
        have bound : digit < alphabet.length := inBase digit isDigit
        rw [symbol, List.getD_eq_getElem?_getD, List.getElem?_eq_getElem bound, Option.getD_some]
        exact List.getElem_mem bound
      · exact ih c later

/-- The table's sizes separate full blocks of eight bytes from shorter ones. -/
theorem encSizes_bounds {size : Nat} (positive : 0 < size) (bound : size ≤ 8)
    : 0 < encSizes.getD size 0
      ∧ encSizes.getD size 0 ≤ 11
      ∧ (encSizes.getD size 0 = 11 ↔ size = 8) := by
  interval_cases size <;> decide

/-- The character blocks of an encoding are the encoded byte blocks. -/
theorem cut_base58Encode (bytes : List UInt8)
    : Blocks.cut 11 (base58Encode bytes) = (Blocks.cut 8 bytes).map encodeBlock := by
  have well := Blocks.wellCut_cut (by omega : 0 < 8) bytes
  refine Blocks.WellCut.cut_flatten (by omega) (well.map ?_ ?_)
  · intro block _ full
    rw [length_encodeBlock, full]
    rfl
  · intro block _ nonempty short
    obtain ⟨positive, bound, -⟩ := encSizes_bounds (List.length_pos_iff.mpr nonempty) short
    rw [← length_encodeBlock] at positive bound
    exact ⟨List.ne_nil_of_length_pos positive, bound⟩

/-- Decoding inverts the encoding of every byte string. -/
theorem base58Decode_base58Encode (bytes : List UInt8)
    : base58Decode (base58Encode bytes) = some bytes := by
  refine base58Decode_eq_some.mpr
    ⟨Blocks.cut 8 bytes, ?_, (Blocks.flatten_cut (by omega) bytes).symm⟩
  rw [cut_base58Encode, List.forall₂_map_left_iff]
  refine List.forall₂_same.mpr ?_
  intro block member
  obtain ⟨nonempty, short⟩ := (Blocks.wellCut_cut (by omega) bytes).bounds (by omega) block member
  exact decodeBlock_encodeBlock nonempty short

/-- Decoded byte blocks are well cut: full ones come from full character blocks. -/
theorem wellCut_of_decoded {blocks : List (List Char)} {outs : List (List UInt8)}
    (well : Blocks.WellCut 11 blocks)
    (decoded : List.Forall₂ (fun block out => decodeBlock block = some out) blocks outs)
    : Blocks.WellCut 8 outs := by
  have sizes {block : List Char} {out : List UInt8} (head : decodeBlock block = some out)
      : out ≠ [] ∧ out.length ≤ 8 ∧ (block.length = 11 → out.length = 8) := by
    obtain ⟨size, v, positive, bound, length, -, -, rfl⟩ := decodeBlock_eq_some.mp head
    have full := (encSizes_bounds positive bound).2.2
    rw [← length] at full
    refine ⟨List.ne_nil_of_length_pos ?_, ?_, ?_⟩
    all_goals rw [length_pushBytes]
    · exact positive
    · exact bound
    · exact full.mp
  induction well generalizing outs with
  | nil =>
      cases decoded
      exact .nil
  | last _ _ =>
      cases decoded with
      | cons head tail =>
          cases tail
          exact .last (sizes head).1 (sizes head).2.1
  | cons full _ ih =>
      cases decoded with
      | cons head tail => exact .cons ((sizes head).2.2 full) (ih tail)

/-- A decoded string is the encoding of its bytes exactly when its full blocks fit.
Witness: an encoded block's value is the value of its bytes; conversely each block whose
value fits re-encodes to itself, and the byte blocks cut where the character blocks do.
-/
theorem base58Encode_decoded_iff {s : List Char} {b : List UInt8}
    (decoded : base58Decode s = some b)
    : base58Encode b = s ↔ FullBlocksFit s := by
  constructor
  · rintro rfl block member full v read
    rw [cut_base58Encode] at member
    obtain ⟨bytes, inCut, rfl⟩ := List.mem_map.mp member
    obtain ⟨-, short⟩ := (Blocks.wellCut_cut (by omega) b).bounds (by omega) bytes inCut
    rw [Option.mem_def, blockValue_encodeBlock short] at read
    obtain rfl := Option.some.inj read
    have bound := bytesValue_lt bytes
    have power : 256 ^ bytes.length ≤ 256 ^ 8 := Nat.pow_le_pow_right (by omega) short
    omega
  · intro fits
    obtain ⟨outs, related, rfl⟩ := base58Decode_eq_some.mp decoded
    have well := wellCut_of_decoded (Blocks.wellCut_cut (by omega) s) related
    have blocks : outs.map encodeBlock = Blocks.cut 11 s := by
      have each : ∀ pair ∈ (Blocks.cut 11 s).zip outs, encodeBlock pair.2 = pair.1 := by
        rintro ⟨block, out⟩ member
        have head := List.forall₂_iff_zip.mp related |>.2 member
        obtain ⟨size, v, positive, bound, length, read, inRange, same⟩ :=
          decodeBlock_eq_some.mp head
        refine encodeBlock_decodeBlock head read ?_
        rw [same, length_pushBytes]
        rcases Nat.lt_or_ge size 8 with small | large
        · exact inRange small
        · have eight : size = 8 := by omega
          subst eight
          exact fits block (List.of_mem_zip member).1 length v read
      have lengths := List.forall₂_iff_zip.mp related |>.1
      have mapped : ((Blocks.cut 11 s).zip outs).map (fun pair => encodeBlock pair.2)
          = ((Blocks.cut 11 s).zip outs).map Prod.fst :=
        List.map_congr_left each
      rwa [List.map_fst_zip (Nat.le_of_eq lengths), ← Function.comp_def, ← List.map_map,
        List.map_snd_zip (Nat.le_of_eq lengths.symm)] at mapped
    rw [base58Encode, well.cut_flatten (by omega), blocks, Blocks.flatten_cut (by omega)]

end MoneroWalletCore.Address
