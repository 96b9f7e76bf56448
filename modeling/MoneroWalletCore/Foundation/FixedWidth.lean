import Mathlib.Data.Nat.Digits.Defs
import Mathlib.Tactic.Ring

/-! Fixed-width positional numerals, most significant digit first.
A block codec reads one block as a numeral in its first base and writes it as a numeral of
a fixed width in its second base; these are the two directions and their inversion laws.
-/

namespace FixedWidth

/-- The value of a numeral whose most significant digit comes first. -/
def value (base : Nat) (digits : List Nat) : Nat :=
  digits.foldl (fun total digit => total * base + digit) 0

/-- The last `width` base-`base` digits of a number, most significant first. -/
def digits (base : Nat) : (width : Nat) → Nat → List Nat
  | 0, _ => []
  | width + 1, number => number / base ^ width % base :: digits base width number

/-- Every digit is a digit of the base. -/
def InBase (base : Nat) (numeral : List Nat) : Prop := ∀ digit ∈ numeral, digit < base

variable {base : Nat}

@[simp] theorem length_digits (width number : Nat)
    : (digits base width number).length = width := by
  induction width with
  | zero => rfl
  | succ width ih => simp [digits, ih]

/-- Every written digit belongs to the base, by induction on the width. -/
theorem digits_inBase (positive : 0 < base) (width number : Nat)
    : InBase base (digits base width number) := by
  induction width with
  | zero => simp [InBase, digits]
  | succ width ih =>
      intro digit member
      rcases List.mem_cons.mp member with rfl | later
      · exact Nat.mod_lt _ positive
      · exact ih digit later

/-- The left fold is the little-endian value of the reversed numeral. -/
theorem value_eq_ofDigits (numeral : List Nat)
    : value base numeral = Nat.ofDigits base numeral.reverse := by
  rw [Nat.ofDigits_eq_foldr, List.foldr_reverse, value]
  congr 1
  funext total digit
  simp only [Nat.cast_id]
  ring

/-- The leading digit weighs one power of the base for each digit after it. -/
theorem value_cons (digit : Nat) (rest : List Nat)
    : value base (digit :: rest) = digit * base ^ rest.length + value base rest := by
  rw [value_eq_ofDigits, value_eq_ofDigits, Nat.ofDigits_reverse_cons]
  ring

/-- A numeral's value is bounded by its width, by induction on the numeral. -/
theorem value_lt {numeral : List Nat} (inBase : InBase base numeral)
    : value base numeral < base ^ numeral.length := by
  induction numeral with
  | nil => simp [value]
  | cons digit rest ih =>
      have bound := ih (fun other member => inBase other (List.mem_cons_of_mem digit member))
      have head : digit + 1 ≤ base := inBase digit (by simp)
      calc value base (digit :: rest)
          = digit * base ^ rest.length + value base rest := value_cons digit rest
        _ < digit * base ^ rest.length + base ^ rest.length := by omega
        _ = (digit + 1) * base ^ rest.length := by ring
        _ ≤ base * base ^ rest.length := Nat.mul_le_mul_right _ head
        _ = base ^ (digit :: rest).length := by rw [List.length_cons, pow_succ]; ring

/-- Writing keeps only what the width can hold. -/
theorem value_digits (width number : Nat)
    : value base (digits base width number) = number % base ^ width := by
  induction width with
  | zero => simp [value, digits, Nat.mod_one]
  | succ width ih =>
      rw [digits, value_cons, ih, length_digits, Nat.mod_pow_succ]
      ring

/-- Writing a number that fits the width and reading it back gives the number. -/
theorem value_digits_of_lt {width number : Nat} (fits : number < base ^ width)
    : value base (digits base width number) = number := by
  rw [value_digits, Nat.mod_eq_of_lt fits]

/-- The low digits do not see a multiple of a higher power of the base. -/
theorem digits_add_mul (positive : 0 < base) (width excess number : Nat)
    : digits base width (excess * base ^ width + number) = digits base width number := by
  induction width generalizing excess with
  | zero => rfl
  | succ width ih =>
      have split : excess * base ^ (width + 1) + number
          = number + base ^ width * (base * excess) := by
        rw [pow_succ]; ring
      have lower : digits base width (excess * base ^ (width + 1) + number)
          = digits base width number := by
        have regroup : excess * base ^ (width + 1) = excess * base * base ^ width := by
          rw [pow_succ]; ring
        rw [regroup, ih (excess * base)]
      rw [digits, digits, lower, split, Nat.add_mul_div_left _ _ (pow_pos positive width),
        Nat.add_mul_mod_self_left]

/-- Reading a numeral and writing its value at the same width gives the numeral back. -/
theorem digits_value {numeral : List Nat} (inBase : InBase base numeral)
    : digits base numeral.length (value base numeral) = numeral := by
  induction numeral with
  | nil => rfl
  | cons digit rest ih =>
      have later : InBase base rest :=
        fun other member => inBase other (List.mem_cons_of_mem digit member)
      have head : digit < base := inBase digit (by simp)
      have positive : 0 < base := Nat.zero_lt_of_lt head
      rw [List.length_cons, digits, value_cons, digits_add_mul positive, ih later]
      congr 1
      rw [Nat.mul_comm, Nat.mul_add_div (pow_pos positive _), Nat.div_eq_of_lt (value_lt later),
        Nat.add_zero, Nat.mod_eq_of_lt head]

/-- Numerals of one width are determined by their values. -/
theorem eq_of_value_eq {left right : List Nat} (hl : InBase base left)
    (hr : InBase base right) (widths : left.length = right.length)
    (values : value base left = value base right)
    : left = right := by
  rw [← digits_value hl, ← digits_value hr, widths, values]

end FixedWidth
