import MoneroWalletCore.Clients.Reads

/-! The methods of `MoneroWalletCoreImpl` that pass an account or a subaddress on to the runtime.
Their indices are signed and have 64 bits; most of the runtime's have 32.
-/

namespace MoneroWalletCore.Runtime

structure StdLogosResult where
  ok : Bool
  value : Json := .null
  error : String := ""

/-- `erase`: an object without a field. -/
def Json.erase (j : Json) (key : String) : Json :=
  match j with
  | .obj fields => .obj (fields.filter fun field => field.1 != key)
  | j => j

def fromJson (j : Json) : Except Exn StdLogosResult := do
  let ok ← j.valueBool "ok" false
  if ok then
    let v := j.erase "ok"
    return { ok := true, value := (v.find? "result").getD v }
  else
    let error ← j.valueString "error" "unknown error"
    return { ok := false, error }

@[simp] theorem fromJson_okWith (result : Json)
    : fromJson (okWith result) = .ok { ok := true, value := result } := rfl

@[simp] theorem fromJson_err (msg : String)
    : fromJson (err msg) = .ok { ok := false, error := msg } := rfl

namespace CoreImpl

/-- `a < 0 ? 0 : a`. -/
def clamped (a : Int64) : Int64 := if a < 0 then 0 else a

/-- `static_cast<uint32_t>`. -/
def narrowed (a : Int64) : UInt32 := (clamped a).toUInt64.toUInt32

/-- `static_cast<uint64_t>`. -/
def widened (a : Int64) : UInt64 := (clamped a).toUInt64

def balance (a : Int64) : Reader Json := Runtime.balance (narrowed a)

def unlockedBalance (a : Int64) : Reader Json := Runtime.unlockedBalance (narrowed a)

def address (a i : Int64) : Reader Json := Runtime.address (widened a) (widened i)

def subaddresses (a : Int64) : Reader Json := Runtime.subaddresses (narrowed a)

def createSubaddress (a : Int64) (label : String) : Reader StdLogosResult := do
  let j ← Runtime.createSubaddress (narrowed a) label
  Reader.orThrow (fromJson j)

def setSubaddressLabel (a i : Int64) (label : String) : Reader StdLogosResult := do
  let j ← Runtime.setSubaddressLabel (narrowed a) (narrowed i) label
  Reader.orThrow (fromJson j)

theorem clamped_of_nonneg {a : Int64} (nonneg : 0 ≤ a) : clamped a = a :=
  if_neg (Int64.not_lt.mpr nonneg)

/-- Nothing is lost of a non-negative index in 64 bits. -/
theorem widened_toNat {a : Int64} (nonneg : 0 ≤ a) : (widened a).toNat = a.toNatClampNeg := by
  rw [widened, clamped_of_nonneg nonneg, Int64.toNat_toUInt64_of_le nonneg]

/-- In 32 bits the rest by 2^32 is left. -/
theorem narrowed_toNat {a : Int64} (nonneg : 0 ≤ a)
    : (narrowed a).toNat = a.toNatClampNeg % 2 ^ 32 := by
  rw [narrowed, clamped_of_nonneg nonneg, UInt64.toNat_toUInt32,
    Int64.toNat_toUInt64_of_le nonneg]

theorem narrowed_exact {a : Int64} (nonneg : 0 ≤ a)
    : (narrowed a).toNat = a.toNatClampNeg ↔ a.toNatClampNeg < 2 ^ 32 := by
  rw [narrowed_toNat nonneg, Nat.mod_eq_iff_lt (by norm_num)]

end CoreImpl

end MoneroWalletCore.Runtime
