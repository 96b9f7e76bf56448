import MoneroWalletCore.Address.Base58

/-! Which strings are addresses, and how far validation agrees.
An address of a network is the encoding of one prefix byte, a payload and a checksum over both.
Every such spelling is accepted. The converse needs the blocks of the string in range: a full
block may carry a value beyond eight bytes, and a prefix may be spelt with more than one byte.
-/

namespace MoneroWalletCore.Address

/-- The networks that validation knows. -/
inductive Network where
  | mainnet
  | regtest
  | testnet
  | stagenet
  deriving DecidableEq, Repr

def Network.name : Network → String
  | .mainnet => "mainnet"
  | .regtest => "regtest"
  | .testnet => "testnet"
  | .stagenet => "stagenet"

inductive Kind where
  | standard
  | subaddress
  | integrated
  deriving DecidableEq, Repr

/-- Two public keys, and eight more bytes of payment id for an integrated address. -/
def Kind.payloadLength : Kind → Nat
  | .standard | .subaddress => 64
  | .integrated => 72

def prefixByte : Network → Kind → UInt8
  | .mainnet, .standard | .regtest, .standard => 18
  | .mainnet, .subaddress | .regtest, .subaddress => 42
  | .mainnet, .integrated | .regtest, .integrated => 19
  | .testnet, .standard => 53
  | .testnet, .subaddress => 63
  | .testnet, .integrated => 54
  | .stagenet, .standard => 24
  | .stagenet, .subaddress => 36
  | .stagenet, .integrated => 25

/-- The bytes an address encodes: what the checksum covers, then its first four bytes. -/
def addressBytes (network : Network) (kind : Kind) (payload : Vector UInt8 kind.payloadLength)
    : List UInt8 :=
  let body := prefixByte network kind :: payload.toList
  body ++ (keccak256 body).take 4

/-- The one spelling of an address. -/
def spelling (network : Network) (kind : Kind) (payload : Vector UInt8 kind.payloadLength)
    : List Char :=
  base58Encode (addressBytes network kind payload)

/-- The prefix and the payload that validation reads off a string. -/
def denoted (s : String) : Option (UInt64 × List UInt8) := do
  let b ← base58Decode s.toList
  let (pre, n) ← readVarint b
  some (pre, (b.take (b.length - 4)).drop n)

/-- Every full block fits eight bytes, and the first leaves the top bit of its first byte
clear, so that the prefix is one byte.
-/
def BlocksInRange (s : List Char) : Prop :=
  FullBlocksFit s ∧ ∀ block ∈ (Blocks.cut 11 s).head?, ∀ v ∈ blockValue block, v < 2 ^ 63

instance (s : List Char) : Decidable (BlocksInRange s) :=
  inferInstanceAs (Decidable (_ ∧ ∀ _ ∈ (Blocks.cut 11 s).head?, _))

-----------------------------------------------------------------------------------------
-- What acceptance says
-----------------------------------------------------------------------------------------

theorem prefixesOf_name (network : Network)
    : prefixesOf network.name
      = some
          ⟨
            (prefixByte network .standard).toUInt64,
            (prefixByte network .subaddress).toUInt64,
            (prefixByte network .integrated).toUInt64
          ⟩ := by
  cases network <;> decide

theorem valid_eq_true {s network : String}
    : valid s network = true
      ↔ ∃ p b pre n,
          prefixesOf network = some p
          ∧ 90 ≤ s.length
          ∧ base58Decode s.toList = some b
          ∧ 4 ≤ b.length
          ∧ readVarint b = some (pre, n)
          ∧ bodyFits p pre n (b.length - 4) = true
          ∧ checksumMatches b (b.length - 4) = true := by
  constructor
  · intro accepted
    unfold valid at accepted
    repeat' split at accepted
    all_goals try contradiction
    rename_i p known _ long b decoded enough _ pre n read
    rw [Bool.and_eq_true] at accepted
    exact ⟨p, b, pre, n, known, by omega, decoded, by omega, read, accepted⟩
  · rintro ⟨p, b, pre, n, known, long, decoded, enough, read, fits, checksum⟩
    simp only [valid, known, decoded, read, fits, checksum, Bool.and_self]
    rw [if_neg (by omega), if_neg (by omega)]

/-- The body check names the kind: its prefix and its length. -/
theorem bodyFits_name {network : Network} {p : Prefixes} {pre : UInt64} {n body : Nat}
    (known : prefixesOf network.name = some p) (fits : bodyFits p pre n body = true)
    : ∃ kind : Kind,
        pre = (prefixByte network kind).toUInt64 ∧ body = n + kind.payloadLength := by
  obtain rfl := Option.some.inj ((prefixesOf_name network).symm.trans known)
  unfold bodyFits at fits
  split at fits
  · rename_i either
    rcases either with same | same
    · exact ⟨.standard, same, by simpa [Kind.payloadLength] using fits⟩
    · exact ⟨.subaddress, same, by simpa [Kind.payloadLength] using fits⟩
  · split at fits
    · rename_i same
      exact ⟨.integrated, same, by simpa [Kind.payloadLength] using fits⟩
    · contradiction

/-- Prefix bytes differ between kinds, and between networks that are not told apart by name
only; all of them are one-byte varints. -/
theorem prefixByte_small (network : Network) (kind : Kind) : prefixByte network kind < 0x80 := by
  cases network <;> cases kind <;> decide

theorem prefixByte_injective {network : Network} {left right : Kind}
    (same : (prefixByte network left).toUInt64 = (prefixByte network right).toUInt64)
    : left = right := by
  revert same
  cases network <;> cases left <;> cases right <;> decide

/-- A first byte without its continuation bit is the whole varint. -/
theorem readVarint_of_small {byte : UInt8} (rest : List UInt8) (small : byte < 0x80)
    : readVarint (byte :: rest) = some (byte.toUInt64, 1) := by
  have table : ∀ n : Fin 128,
      (0 : UInt64) ||| ((UInt8.ofNat n.val &&& 0x7f).toUInt64 <<< UInt64.ofNat 0)
          = (UInt8.ofNat n.val).toUInt64
        ∧ UInt8.ofNat n.val &&& 0x80 = 0 := by decide
  obtain ⟨kept, final⟩ := table ⟨byte.toNat, UInt8.lt_iff_toNat_lt.mp small⟩
  simp only [UInt8.ofNat_toNat] at kept final
  rw [readVarint, readVarintFrom, if_pos (by omega)]
  dsimp only
  rw [kept, if_pos final]

-----------------------------------------------------------------------------------------
-- Every spelling is accepted
-----------------------------------------------------------------------------------------

@[simp] theorem length_keccak256 (input : List UInt8) : (keccak256 input).length = 32 := by
  simp [keccak256, storeLane]

theorem length_addressBytes (network : Network) (kind : Kind)
    (payload : Vector UInt8 kind.payloadLength)
    : (addressBytes network kind payload).length = kind.payloadLength + 5 := by
  simp [addressBytes]

/-- Eleven characters for each full block of bytes, and the table's size for the tail. -/
theorem length_base58Encode (bytes : List UInt8)
    : (base58Encode bytes).length
      = 11 * (bytes.length / 8) + encSizes.getD (bytes.length % 8) 0 := by
  induction length : bytes.length using Nat.strongRecOn generalizing bytes with
  | ind length ih =>
      subst length
      by_cases short : bytes.length < 8
      · rw [Nat.div_eq_of_lt short, Nat.mod_eq_of_lt short]
        by_cases nonempty : bytes = []
        · subst nonempty
          rfl
        · simp [base58Encode, Blocks.cut_short nonempty (Nat.le_of_lt short)]
      · have nonempty : bytes ≠ [] := List.ne_nil_of_length_pos (by omega)
        have full : (bytes.take 8).length = 8 := by rw [List.length_take]; omega
        have rest := ih (bytes.drop 8).length (by rw [List.length_drop]; omega) (bytes.drop 8) rfl
        have size : encSizes.getD 8 0 = 11 := rfl
        rw [base58Encode] at rest
        rw [base58Encode, Blocks.cut_of_ne_nil (by omega) nonempty, List.map_cons,
          List.flatten_cons, List.length_append, length_encodeBlock, rest, full, size,
          List.length_drop]
        have count : bytes.length / 8 = (bytes.length - 8) / 8 + 1 := by omega
        have tail : bytes.length % 8 = (bytes.length - 8) % 8 := by omega
        rw [count, tail]
        ring

/-- An address is 95 characters long, and 106 with a payment id. -/
theorem length_spelling (network : Network) (kind : Kind)
    (payload : Vector UInt8 kind.payloadLength)
    : (spelling network kind payload).length = if kind = .integrated then 106 else 95 := by
  rw [spelling, length_base58Encode, length_addressBytes]
  cases kind <;> rfl

/-- The body check and the checksum hold of the bytes an address encodes. -/
theorem checks_addressBytes (network : Network) (kind : Kind)
    (payload : Vector UInt8 kind.payloadLength)
    : let b := addressBytes network kind payload
      readVarint b = some ((prefixByte network kind).toUInt64, 1)
      ∧ b.length - 4 = 1 + kind.payloadLength
      ∧ checksumMatches b (b.length - 4) = true := by
  have length := length_addressBytes network kind payload
  have size : (addressBytes network kind payload).length - 4 = 1 + kind.payloadLength := by omega
  refine ⟨readVarint_of_small _ (prefixByte_small network kind), size, ?_⟩
  have covered : 1 + kind.payloadLength = (prefixByte network kind :: payload.toList).length := by
    simp [Nat.add_comm]
  rw [size, checksumMatches, addressBytes, covered, List.take_left, List.drop_left,
    List.take_take, Nat.min_self, beq_self_eq_true]

theorem bodyFits_kind (network : Network) (kind : Kind) {p : Prefixes}
    (known : prefixesOf network.name = some p)
    : bodyFits p (prefixByte network kind).toUInt64 1 (1 + kind.payloadLength) = true := by
  obtain rfl := Option.some.inj ((prefixesOf_name network).symm.trans known)
  cases network <;> cases kind <;> decide

/-- Validation accepts the spelling of every address of a network. Witness: the decoder
inverts the encoder, the prefix byte is its own varint, and the checksum is recomputed over
the span it was made from.
-/
theorem spelling_accepted (network : Network) (kind : Kind)
    (payload : Vector UInt8 kind.payloadLength)
    : valid (String.ofList (spelling network kind payload)) network.name = true := by
  obtain ⟨read, size, checksum⟩ := checks_addressBytes network kind payload
  have length := length_addressBytes network kind payload
  have known := prefixesOf_name network
  refine valid_eq_true.mpr
    ⟨_, addressBytes network kind payload, _, 1, known, ?_, ?_, by omega, read, ?_, checksum⟩
  · rw [String.length_ofList, length_spelling]
    split <;> omega
  · rw [String.toList_ofList, spelling, base58Decode_base58Encode]
  · rw [size]
    exact bodyFits_kind network kind known

-----------------------------------------------------------------------------------------
-- Networks are kept apart
-----------------------------------------------------------------------------------------

/-- A string accepted for two networks carries a prefix of both. -/
theorem prefix_shared {s : String} {left right : Network}
    (hl : valid s left.name = true) (hr : valid s right.name = true)
    : ∃ first second,
        (prefixByte left first).toUInt64 = (prefixByte right second).toUInt64 := by
  obtain ⟨_, b, pre, n, known, -, decoded, -, read, fits, -⟩ := valid_eq_true.mp hl
  obtain ⟨_, b', pre', n', known', -, decoded', -, read', fits', -⟩ := valid_eq_true.mp hr
  obtain rfl := Option.some.inj (decoded.symm.trans decoded')
  have same := Option.some.inj (read.symm.trans read')
  simp only [Prod.mk.injEq] at same
  obtain ⟨first, named, -⟩ := bodyFits_name known fits
  obtain ⟨second, named', -⟩ := bodyFits_name known' fits'
  exact ⟨first, second, named.symm.trans (same.1.trans named')⟩

/-- Genuine addresses are accepted, regtest validates as mainnet does, and no string is
accepted for two of mainnet, testnet and stagenet.
-/
theorem valid_complete_and_separating
    : (∀ (network : Network) (kind : Kind) (payload : Vector UInt8 kind.payloadLength),
        valid (String.ofList (spelling network kind payload)) network.name = true)
      ∧ ∀ s,
          valid s "mainnet" = valid s "regtest"
          ∧ ¬(valid s "mainnet" = true ∧ valid s "testnet" = true)
          ∧ ¬(valid s "mainnet" = true ∧ valid s "stagenet" = true)
          ∧ ¬(valid s "testnet" = true ∧ valid s "stagenet" = true) := by
  have apart {s : String} (left right : Network)
      (table : ∀ first second,
        (prefixByte left first).toUInt64 ≠ (prefixByte right second).toUInt64)
      : ¬(valid s left.name = true ∧ valid s right.name = true) := by
    rintro ⟨hl, hr⟩
    obtain ⟨first, second, same⟩ := prefix_shared hl hr
    exact table first second same
  refine ⟨spelling_accepted, fun s => ⟨rfl, ?_, ?_, ?_⟩⟩
  · exact apart .mainnet .testnet (by intro first second; cases first <;> cases second <;> decide)
  · exact apart .mainnet .stagenet (by intro first second; cases first <;> cases second <;> decide)
  · exact apart .testnet .stagenet (by intro first second; cases first <;> cases second <;> decide)

end MoneroWalletCore.Address
