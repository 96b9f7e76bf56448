import Mathlib.Data.Rat.Floor

/-! JSON values as the module handles them, and the conversions that read a field of one.
An object's keys are unique, so its fields are an association list looked up by the first
match. A conversion throws the library's type error when the field has another type.
-/

namespace MoneroWalletCore.Runtime

/-- What a body can throw: an exception with a message, or anything else. -/
inductive Exn where
  | std (what : String)
  | unknown
  deriving DecidableEq, Repr

inductive Json where
  | null
  | bool (value : Bool)
  | int (value : Int64)
  | uint (value : UInt64)
  | float (value : Rat)
  | str (value : String)
  | arr (items : List Json)
  | obj (fields : List (String × Json))

namespace Json

def typeName : Json → String
  | .null => "null"
  | .bool _ => "boolean"
  | .int _ | .uint _ | .float _ => "number"
  | .str _ => "string"
  | .arr _ => "array"
  | .obj _ => "object"

def isObject : Json → Bool
  | .obj _ => true
  | _ => false

/-- `find`: the field of an object; a value of another type has none. -/
def find? (j : Json) (key : String) : Option Json :=
  match j with
  | .obj fields => (fields.find? (fun field => field.1 == key)).map Prod.snd
  | _ => none

def contains (j : Json) (key : String) : Bool := (j.find? key).isSome

def typeError (expected : String) (j : Json) : Exn :=
  .std ("[json.exception.type_error.302] type must be " ++ expected ++ ", but is " ++ j.typeName)

def getString : Json → Except Exn String
  | .str value => .ok value
  | j => .error (typeError "string" j)

def getBool : Json → Except Exn Bool
  | .bool value => .ok value
  | j => .error (typeError "boolean" j)

/-- A number as the integer that the conversion to an integral type starts from: a fraction is
cut off, and a boolean counts as 0 or 1. -/
def getInteger : Json → Except Exn Int
  | .int value => .ok value.toInt
  | .uint value => .ok value.toNat
  | .float value => .ok (if 0 ≤ value then ⌊value⌋ else ⌈value⌉)
  | .bool value => .ok (if value then 1 else 0)
  | j => .error (typeError "number" j)

/-- `value`: the converted field, or the default when the object lacks it. -/
def value {α : Type} (get : Json → Except Exn α) (j : Json) (key : String) (default : α)
    : Except Exn α :=
  match j with
  | .obj _ =>
      match j.find? key with
      | some field => get field
      | none => .ok default
  | _ =>
      .error (.std ("[json.exception.type_error.306] cannot use value() with " ++ j.typeName))

def valueString (j : Json) (key : String) (default : String) : Except Exn String :=
  value getString j key default

def valueBool (j : Json) (key : String) (default : Bool) : Except Exn Bool :=
  value getBool j key default

def valueUInt64 (j : Json) (key : String) (default : UInt64) : Except Exn UInt64 :=
  value (fun field => (getInteger field).map UInt64.ofInt) j key default

def valueUInt32 (j : Json) (key : String) (default : UInt32) : Except Exn UInt32 :=
  value (fun field => (getInteger field).map UInt32.ofInt) j key default

def valueInt32 (j : Json) (key : String) (default : Int32) : Except Exn Int32 :=
  value (fun field => (getInteger field).map Int32.ofInt) j key default

end Json

/-- A field that is missing or not a string reads as empty. -/
def str (j : Json) (key : String) : String :=
  match j.find? key with
  | some (.str value) => value
  | _ => ""


/-- `err`: the answer of a call or a body that failed. -/
def err (msg : String) : Json := .obj [("ok", .bool false), ("error", .str msg)]

/-- The answer of one that succeeded. -/
def okWith (result : Json) : Json := .obj [("ok", .bool true), ("result", result)]

end MoneroWalletCore.Runtime
