import Mathlib.Algebra.Order.Ring.Nat
import Mathlib.Data.List.Basic
import Mathlib.Tactic.Ring

/-! Variable-length numbers: groups of seven bits, the least significant first, a byte each. The
high bit of a byte says that more follow. Writing a number gives the shortest such bytes.
-/

namespace Varint

def write (v : Nat) : List UInt8 :=
  if v < 128 then [UInt8.ofNat v] else UInt8.ofNat (v % 128 + 128) :: write (v / 128)

/-- The number whose groups the bytes hold. -/
def value : List UInt8 → Nat
  | [] => 0
  | byte :: rest => byte.toNat % 128 + 128 * value rest

/-- More bytes follow all but the last. -/
inductive Whole : List UInt8 → Prop
  | last {byte : UInt8} (ends : byte.toNat < 128) : Whole [byte]
  | more {byte : UInt8} {rest : List UInt8} (follow : 128 ≤ byte.toNat) (whole : Whole rest)
    : Whole (byte :: rest)

/-- The last group is needed. -/
def Minimal (bytes : List UInt8) : Prop := bytes.length = 1 ∨ bytes.getLast? ≠ some 0

variable {bytes : List UInt8}

theorem Whole.ne_nil (whole : Whole bytes) : bytes ≠ [] := by
  cases whole <;> exact List.cons_ne_nil _ _

theorem Whole.length_pos (whole : Whole bytes) : 0 < bytes.length :=
  List.length_pos_of_ne_nil whole.ne_nil

theorem whole_concat {front : List UInt8} {last : UInt8}
    : Whole (front ++ [last]) ↔ (∀ byte ∈ front, 128 ≤ byte.toNat) ∧ last.toNat < 128 := by
  induction front with
  | nil =>
      refine ⟨fun whole => ⟨nofun, ?_⟩, fun ends => .last ends.2⟩
      cases whole with
      | last ends => exact ends
      | more _ whole => exact absurd rfl whole.ne_nil
  | cons byte rest ih =>
      rw [List.forall_mem_cons, and_assoc, ← ih]
      constructor
      · intro whole
        generalize bytes : byte :: rest ++ [last] = p at whole
        cases whole with
        | last ends =>
            have length := congrArg List.length bytes
            simp at length
        | more follow whole =>
            obtain ⟨rfl, rfl⟩ := List.cons.inj bytes
            exact ⟨follow, whole⟩
      · exact fun parts => .more parts.1 parts.2

theorem Whole.concat (whole : Whole bytes) : ∃ front last, bytes = front ++ [last] := by
  rcases List.eq_nil_or_concat bytes with rfl | ⟨front, last, same⟩
  · exact absurd rfl whole.ne_nil
  · exact ⟨front, last, same.trans List.concat_eq_append⟩

/-- At most one varint begins some bytes. Induction on the first. -/
theorem Whole.eq_of_prefixes {other input : List UInt8} (whole : Whole bytes)
    (begins : bytes <+: input) (another : Whole other) (alsoBegins : other <+: input)
    : bytes = other := by
  induction whole generalizing other input with
  | @last byte ends =>
      obtain ⟨rest, rfl⟩ := begins
      cases another with
      | last _ =>
          obtain ⟨same, _⟩ := List.cons_prefix_cons.mp alsoBegins
          rw [same]
      | more follow _ =>
          obtain ⟨rfl, _⟩ := List.cons_prefix_cons.mp alsoBegins
          omega
  | @more byte rest follow _ ih =>
      obtain ⟨tail, rfl⟩ := begins
      cases another with
      | last ends =>
          obtain ⟨rfl, _⟩ := List.cons_prefix_cons.mp alsoBegins
          omega
      | more _ whole =>
          obtain ⟨rfl, later⟩ := List.cons_prefix_cons.mp alsoBegins
          rw [ih (List.prefix_append rest tail) whole later]

/-! ### What is written -/

theorem toNat_group {v : Nat} : (UInt8.ofNat (v % 128 + 128)).toNat = v % 128 + 128 := by
  rw [UInt8.toNat_ofNat']
  omega

theorem write_small {v : Nat} (small : v < 128) : write v = [UInt8.ofNat v] := by
  rw [write, if_pos small]

theorem write_large {v : Nat} (large : ¬v < 128)
    : write v = UInt8.ofNat (v % 128 + 128) :: write (v / 128) := by
  rw [write, if_neg large]

theorem toNat_small {v : Nat} (small : v < 128) : (UInt8.ofNat v).toNat = v := by
  rw [UInt8.toNat_ofNat']
  omega

theorem whole_write (v : Nat) : Whole (write v) := by
  induction v using write.induct with
  | case1 v small =>
      rw [write_small small]
      exact .last (by rw [toNat_small small]; exact small)
  | case2 v large ih =>
      rw [write_large large]
      exact .more (by rw [toNat_group]; omega) ih

/-- Reading the groups back. -/
@[simp] theorem value_write (v : Nat) : value (write v) = v := by
  induction v using write.induct with
  | case1 v small =>
      rw [write_small small, value, value, toNat_small small]
      omega
  | case2 v large ih =>
      rw [write_large large, value, toNat_group, ih]
      omega

theorem minimal_write (v : Nat) : Minimal (write v) := by
  induction v using write.induct with
  | case1 v small =>
      rw [write_small small]
      exact .inl rfl
  | case2 v large ih =>
      rw [write_large large]
      right
      rw [List.getLast?_cons_of_ne_nil (whole_write _).ne_nil]
      rcases ih with one | needed
      · -- A single byte is left, which holds a quotient that is not zero.
        have small : v / 128 < 128 := by
          by_contra large'
          rw [write_large large', List.length_cons] at one
          have := (whole_write (v / 128 / 128)).length_pos
          omega
        rw [write_small small, List.getLast?_singleton, Ne, Option.some.injEq]
        intro zero
        have := congrArg UInt8.toNat zero
        rw [toNat_small small, UInt8.toNat_zero] at this
        omega
      · exact needed

/-- A number has no more bytes than groups. Induction on the groups. -/
theorem length_write_le {v groups : Nat} (small : v < 128 ^ (groups + 1))
    : (write v).length ≤ groups + 1 := by
  induction groups generalizing v with
  | zero => rw [write_small (by omega), List.length_singleton]
  | succ groups ih =>
      by_cases short : v < 128
      · rw [write_small short, List.length_singleton]
        omega
      · rw [write_large short, List.length_cons]
        have rest : v / 128 < 128 ^ (groups + 1) := by
          rw [Nat.div_lt_iff_lt_mul (by omega), ← pow_succ]
          exact small
        exact Nat.succ_le_succ (ih rest)

/-! ### What is read -/

theorem value_pos (whole : Whole bytes) (needed : bytes.getLast? ≠ some 0) : 0 < value bytes := by
  induction whole with
  | @last byte ends =>
      have other : byte.toNat ≠ 0 := fun zero =>
        needed (congrArg some (UInt8.toNat_inj.mp (zero.trans UInt8.toNat_zero.symm)))
      rw [value, value]
      omega
  | @more byte rest _ whole ih =>
      rw [List.getLast?_cons_of_ne_nil whole.ne_nil] at needed
      have := ih needed
      rw [value]
      omega

/-- Whatever needs its last group is what is written. Induction on the bytes. -/
theorem write_value (whole : Whole bytes) (minimal : Minimal bytes)
    : write (value bytes) = bytes := by
  induction whole with
  | @last byte ends =>
      have same : value [byte] = byte.toNat := by
        rw [value, value]
        omega
      rw [same, write_small ends, UInt8.ofNat_toNat]
  | @more byte rest follow whole ih =>
      have needed : rest.getLast? ≠ some 0 := by
        rcases minimal with one | needed
        · have := whole.length_pos
          rw [List.length_cons] at one
          omega
        · rwa [List.getLast?_cons_of_ne_nil whole.ne_nil] at needed
      have positive := value_pos whole needed
      have bound := byte.toNat_lt
      have low : value (byte :: rest) % 128 + 128 = byte.toNat := by
        rw [value]
        omega
      have high : value (byte :: rest) / 128 = value rest := by
        rw [value]
        omega
      rw [write_large (by rw [value]; omega), low, high, UInt8.ofNat_toNat, ih (.inr needed)]

/-- The last byte weighs a group for each byte before it. -/
theorem value_concat (init : List UInt8) (byte : UInt8)
    : value (init ++ [byte]) = value init + 128 ^ init.length * (byte.toNat % 128) := by
  induction init with
  | nil => simp [value]
  | cons first rest ih =>
      rw [List.cons_append, value, value, ih, List.length_cons, pow_succ]
      ring

theorem value_lt (bytes : List UInt8) : value bytes < 128 ^ bytes.length := by
  induction bytes with
  | nil => exact Nat.one_pos
  | cons byte rest ih =>
      rw [value, List.length_cons, pow_succ]
      omega

end Varint
