import Mathlib
import MoneroWalletCore.Tickets.Attendance

/-! Names made of a letter and the value of a 64-bit counter. They are told apart until the
counter has gone round.
-/

namespace MoneroWalletCore.Runtime

/-- The name that a counter started at one gives to the thing it has counted before it. -/
def numbered (letters : String) (n : Nat) : String := letters ++ toString (UInt64.ofNat (n + 1))

theorem toString_inj {a b : UInt64} : toString a = toString b ↔ a = b := by
  have repr : toString a = toString b ↔ a.toNat.repr = b.toNat.repr := Iff.rfl
  rw [repr, Nat.repr_inj, UInt64.toNat_inj]

theorem numbered_inj {letters : String} {n k : Nat} (few : n + 1 < 2 ^ 64) (few' : k + 1 < 2 ^ 64)
    : numbered letters n = numbered letters k ↔ n = k := by
  rw [numbered, numbered, String.append_right_inj, toString_inj, ← UInt64.toNat_inj,
    UInt64.toNat_ofNat_of_lt' few, UInt64.toNat_ofNat_of_lt' few', Nat.add_right_cancel_iff]

/-- After all its values the counter gives the first name again. -/
theorem numbered_round {letters : String} : numbered letters (2 ^ 64) = numbered letters 0 := by
  rw [numbered, numbered, String.append_right_inj, toString_inj]
  decide

/-- The id of the job that was submitted as the given one, counted from zero. -/
def jobId (ptr : JobPtr) : String := numbered "j" ptr

end MoneroWalletCore.Runtime
