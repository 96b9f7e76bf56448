import Mathlib.Data.Nat.Bitwise
import MoneroWalletCore.Address.AddressCheck
import MoneroWalletCore.Foundation.Varint

/-! What the varint reader accepts: any whole varint of up to ten bytes. It is the shortest of
its number, and none of its bits is lost, where its last byte allows.
-/

namespace MoneroWalletCore.Address

open Varint

/-! ### The loop -/

theorem final_iff (byte : UInt8) : byte &&& 0x80 = 0 ↔ byte.toNat < 128 := by
  have table : ∀ n : Fin 256, UInt8.ofNat n.val &&& 0x80 = 0 ↔ n.val < 128 := by decide +kernel
  have entry := table ⟨byte.toNat, byte.toNat_lt⟩
  rwa [UInt8.ofNat_toNat] at entry

/-- A byte's group, shifted to its place and joined to the groups before it. -/
theorem join_group {a n : Nat} (byte : UInt8) (below : a < 2 ^ (7 * n)) (inTime : n ≤ 9)
    : UInt64.ofNat a ||| ((byte &&& 0x7f).toUInt64 <<< UInt64.ofNat (7 * n))
      = UInt64.ofNat (a + 2 ^ (7 * n) * (byte.toNat % 128)) := by
  have group : (byte &&& 0x7f).toUInt64.toNat = byte.toNat % 128 := by
    rw [UInt8.toNat_toUInt64, UInt8.toNat_and]
    exact Nat.and_two_pow_sub_one_eq_mod byte.toNat 7
  have shift : (UInt64.ofNat (7 * n)).toNat % 64 = 7 * n := by
    rw [UInt64.toNat_ofNat']
    omega
  have width : 2 ^ 64 = 2 ^ (7 * n) * 2 ^ (64 - 7 * n) := by
    rw [← pow_add]
    congr 1
    omega
  have fits : a < 2 ^ 64 := below.trans_le (Nat.pow_le_pow_right (by omega) (by omega))
  -- The bits that do not fit are dropped from the group alone.
  have kept : 2 ^ (7 * n) * (byte.toNat % 128) % 2 ^ 64
      = 2 ^ (7 * n) * (byte.toNat % 128 % 2 ^ (64 - 7 * n)) := by
    rw [width, Nat.mul_mod_mul_left]
  have room : a + 2 ^ (7 * n) * (byte.toNat % 128 % 2 ^ (64 - 7 * n)) < 2 ^ 64 := by
    have small := Nat.mod_lt (byte.toNat % 128) (Nat.two_pow_pos (64 - 7 * n))
    calc a + 2 ^ (7 * n) * (byte.toNat % 128 % 2 ^ (64 - 7 * n))
        < 2 ^ (7 * n) * (byte.toNat % 128 % 2 ^ (64 - 7 * n) + 1) := by
          rw [Nat.mul_add, Nat.mul_one]
          omega
      _ ≤ 2 ^ (7 * n) * 2 ^ (64 - 7 * n) := Nat.mul_le_mul_left _ small
      _ = 2 ^ 64 := width.symm
  apply UInt64.toNat_inj.mp
  rw [UInt64.toNat_or, UInt64.toNat_shiftLeft, group, shift, UInt64.toNat_ofNat',
    UInt64.toNat_ofNat', Nat.mod_eq_of_lt fits, Nat.shiftLeft_eq, Nat.mul_comm, kept, Nat.or_comm,
    ← Nat.two_pow_add_eq_or_of_lt below, Nat.add_mod, kept, Nat.mod_eq_of_lt fits,
    Nat.mod_eq_of_lt room, Nat.add_comm]

/-- From its position on the loop reads a whole varint, up to the tenth byte. Induction on the
bytes. -/
theorem readVarintFrom_eq_some {b : List UInt8} {a n m : Nat} {v : UInt64}
    (below : a < 2 ^ (7 * n))
    : readVarintFrom (UInt64.ofNat a) (7 * n) n b = some (v, m)
      ↔ ∃ p, p <+: b ∧ Whole p ∧ n + p.length ≤ 10 ∧ m = n + p.length
        ∧ v = UInt64.ofNat (a + 2 ^ (7 * n) * value p) := by
  induction b generalizing a n with
  | nil =>
      refine iff_of_false (by simp [readVarintFrom]) ?_
      rintro ⟨p, begins, whole, _⟩
      exact whole.ne_nil (List.prefix_nil.mp begins)
  | cons byte rest ih =>
      rw [readVarintFrom]
      by_cases inTime : 7 * n < 64
      · rw [if_pos inTime]
        dsimp only
        rw [join_group byte below (by omega)]
        by_cases ends : byte &&& 0x80 = 0
        · rw [if_pos ends]
          have small := (final_iff byte).mp ends
          have one : value [byte] = byte.toNat % 128 := rfl
          constructor
          · intro read
            cases read
            exact ⟨[byte], ⟨rest, rfl⟩, .last small, by simp; omega, rfl, by rw [one]⟩
          · rintro ⟨p, begins, whole, _, rfl, rfl⟩
            obtain rfl := whole.eq_of_prefixes begins (.last small) ⟨rest, rfl⟩
            rw [one]
            rfl
        · rw [if_neg ends]
          have large : 128 ≤ byte.toNat := by
            have := mt (final_iff byte).mpr ends
            omega
          have below' : a + 2 ^ (7 * n) * (byte.toNat % 128) < 2 ^ (7 * (n + 1)) := by
            have : 2 ^ (7 * n) * (byte.toNat % 128 + 1) ≤ 2 ^ (7 * n) * 128 :=
              Nat.mul_le_mul_left _ (Nat.mod_lt _ (by omega))
            have groups : 2 ^ (7 * (n + 1)) = 2 ^ (7 * n) * 128 := by
              rw [Nat.mul_succ, pow_add]
              rfl
            rw [Nat.mul_add, Nat.mul_one] at this
            omega
          have weighs (q : List UInt8)
              : a + 2 ^ (7 * n) * (byte.toNat % 128) + 2 ^ (7 * (n + 1)) * value q
                = a + 2 ^ (7 * n) * value (byte :: q) := by
            rw [value, Nat.mul_succ, pow_add]
            ring
          refine (ih below').trans ⟨?_, ?_⟩
          · rintro ⟨q, begins, whole, few, rfl, rfl⟩
            refine ⟨byte :: q, List.cons_prefix_cons.mpr ⟨rfl, begins⟩, .more large whole, ?_, ?_, ?_⟩
            · rw [List.length_cons]
              omega
            · rw [List.length_cons]
              omega
            · rw [weighs]
          · rintro ⟨p, begins, whole, few, rfl, rfl⟩
            cases whole with
            | last ends' =>
                obtain ⟨rfl, _⟩ := List.cons_prefix_cons.mp begins
                omega
            | @more _ q _ whole =>
                obtain ⟨rfl, later⟩ := List.cons_prefix_cons.mp begins
                rw [List.length_cons] at few ⊢
                exact ⟨q, later, whole, by omega, by omega, by rw [weighs]⟩
      · rw [if_neg inTime]
        refine iff_of_false (by simp) ?_
        rintro ⟨p, _, whole, few, _⟩
        have := whole.length_pos
        omega

theorem readVarint_eq_some {b : List UInt8} {v : UInt64} {n : Nat}
    : readVarint b = some (v, n)
      ↔ ∃ p, p <+: b ∧ Whole p ∧ p.length ≤ 10 ∧ n = p.length ∧ v = UInt64.ofNat (value p) := by
  have loop := @readVarintFrom_eq_some b 0 0 n v (by omega)
  simpa [readVarint] using loop

/-! ### The shortest bytes of a number -/

/-- What is read is the shortest varint of a number, and that is read. -/
def ReadsCanonically (b : List UInt8) : Prop :=
  ∀ v n, readVarint b = some (v, n) ↔ write v.toNat <+: b ∧ n = (write v.toNat).length

/-- The byte that ends the varint at the front of `b`, if that is in time: it is not zero, unless
it is the only one, and a tenth byte is at most one. -/
def EndsWell (b : List UInt8) : Prop :=
  ∀ front last, front ++ [last] <+: b → (∀ byte ∈ front, 128 ≤ byte.toNat) →
    last.toNat < 128 → front.length ≤ 9 → (front = [] ∨ last ≠ 0) ∧ (front.length = 9 → last ≤ 1)

/-- Nine groups leave one bit for a tenth. -/
theorem value_fits_iff {front : List UInt8} {last : UInt8} (ends : last.toNat < 128)
    (few : front.length ≤ 9)
    : value (front ++ [last]) < 2 ^ 64 ↔ (front.length = 9 → last ≤ 1) := by
  have group : last.toNat % 128 = last.toNat := Nat.mod_eq_of_lt ends
  have before := value_lt front
  rw [value_concat, group, UInt8.le_iff_toNat_le]
  by_cases nine : front.length = 9
  · rw [nine] at before ⊢
    simp only [forall_const, UInt8.reduceToNat]
    omega
  · have whole := value_lt (front ++ [last])
    rw [value_concat, group, List.length_append, List.length_singleton] at whole
    have below : 128 ^ (front.length + 1) ≤ 128 ^ 9 := Nat.pow_le_pow_right (by omega) (by omega)
    exact iff_of_true (by omega) fun same => absurd same nine

theorem minimal_concat {front : List UInt8} {last : UInt8}
    : Varint.Minimal (front ++ [last]) ↔ front = [] ∨ last ≠ 0 := by
  rw [Varint.Minimal, List.getLast?_concat, List.length_append, List.length_singleton, Ne,
    Option.some.injEq, Nat.add_eq_right, List.length_eq_zero_iff]

theorem length_write_uint64 (v : UInt64) : (write v.toNat).length ≤ 10 := by
  refine length_write_le (v.toNat_lt.trans ?_)
  omega

/-- Whatever follows, the reader takes back what was written. -/
theorem readVarint_write {v : UInt64} {b : List UInt8} (begins : write v.toNat <+: b)
    : readVarint b = some (v, (write v.toNat).length) := by
  refine readVarint_eq_some.mpr
    ⟨_, begins, whole_write _, length_write_uint64 v, rfl, ?_⟩
  rw [value_write, UInt64.ofNat_toNat]

/-- The reader takes the shortest bytes of each number, and takes only those where the byte that
ends a varint is well chosen. -/
theorem readsCanonically_iff_endsWell (b : List UInt8)
    : (ReadsCanonically b ↔ EndsWell b)
      ∧ ∀ (v : UInt64) rest,
        readVarint (write v.toNat ++ rest) = some (v, (write v.toNat).length) := by
  refine ⟨⟨?_, ?_⟩, fun v rest => readVarint_write (List.prefix_append _ _)⟩
  · intro reads front last begins follow ends few
    have whole := whole_concat.mpr ⟨follow, ends⟩
    have read : readVarint b
        = some (UInt64.ofNat (value (front ++ [last])), (front ++ [last]).length) :=
      readVarint_eq_some.mpr ⟨_, begins, whole, by simp; omega, rfl, rfl⟩
    obtain ⟨written, _⟩ := (reads _ _).mp read
    have same := (whole_write _).eq_of_prefixes written whole begins
    constructor
    · rw [← minimal_concat, ← same]
      exact minimal_write _
    · rw [← value_fits_iff ends few, ← same, value_write]
      exact UInt64.toNat_lt _
  · intro well v n
    refine ⟨fun read => ?_, fun written => written.2 ▸ readVarint_write written.1⟩
    obtain ⟨p, begins, whole, few, rfl, rfl⟩ := readVarint_eq_some.mp read
    obtain ⟨front, last, rfl⟩ := whole.concat
    obtain ⟨follow, ends⟩ := whole_concat.mp whole
    have short : front.length ≤ 9 := by
      rw [List.length_append, List.length_singleton] at few
      omega
    obtain ⟨needed, tenth⟩ := well front last begins follow ends short
    have fits := (value_fits_iff ends short).mpr tenth
    have written : write (UInt64.ofNat (value (front ++ [last]))).toNat = front ++ [last] := by
      rw [UInt64.toNat_ofNat', Nat.mod_eq_of_lt fits, write_value whole (minimal_concat.mpr needed)]
    rw [written]
    exact ⟨begins, rfl⟩

/-- The prefix 18 in two bytes, with the rest of an address's bytes: it is read, though 18 is
written in one. A tenth byte of two is read as well, and its bit is lost. -/
theorem long_prefix_read
    : readVarint ([0x92, 0x00] ++ List.replicate 68 0) = some (18, 2)
      ∧ ¬ReadsCanonically ([0x92, 0x00] ++ List.replicate 68 0)
      ∧ readVarint ([0x92] ++ List.replicate 8 0x80 ++ [0x02] ++ List.replicate 68 0)
        = some (18, 10)
      ∧ ¬ReadsCanonically ([0x92] ++ List.replicate 8 0x80 ++ [0x02] ++ List.replicate 68 0) := by
  have short : write (18 : UInt64).toNat = [18] := write_small (by decide)
  have refused {b : List UInt8} {n : Nat} (read : readVarint b = some (18, n))
      (other : ¬[18] <+: b)
      : ¬ReadsCanonically b := by
    intro reads
    exact other (short ▸ ((reads 18 n).mp read).1)
  have two : readVarint ([0x92, 0x00] ++ List.replicate 68 0) = some (18, 2) := by decide
  have ten : readVarint ([0x92] ++ List.replicate 8 0x80 ++ [0x02] ++ List.replicate 68 0)
      = some (18, 10) := by decide
  exact ⟨two, refused two (by decide), ten, refused ten (by decide)⟩

end MoneroWalletCore.Address
