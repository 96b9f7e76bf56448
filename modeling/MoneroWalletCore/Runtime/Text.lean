import Mathlib.Data.List.DropRight
import Mathlib.Data.List.Infix
import MoneroWalletCore.Foundation.FixedWidth

/-! The text functions of the runtime: urls, paths, amounts and transaction ids.
A `std::string` is a sequence of chars. A library call is handed `c_str()`, of which it sees
the part before the first terminator.
-/

namespace MoneroWalletCore.Runtime

/-- What a library call sees of a string handed over by `c_str()`. -/
def cstr (s : String) : String := String.ofList (s.toList.takeWhile (· != '\x00'))

/-- `find(needle) != npos`. -/
def occurs (needle s : String) : Bool := decide (needle.toList <:+: s.toList)

/-- The part after the first `://`, if there is one. -/
def afterScheme : List Char → Option (List Char)
  | ':' :: '/' :: '/' :: rest => some rest
  | _ :: rest => afterScheme rest
  | [] => none

/-- A url without its scheme and without trailing slashes. -/
def stripUrl (url : String) : String :=
  String.ofList (((afterScheme url.toList).getD url.toList).rdropWhile (· == '/'))

def proxyHostPort (p : String) : String := stripUrl p

def hostPort (url : String) : String := stripUrl url

def isLoopback (url : String) : Bool :=
  occurs "127.0.0.1" url || occurs "localhost" url || occurs "[::1]" url

def nettypeOf (network : String) : Int :=
  if network = "testnet" then 1
  else if network = "stagenet" then 2
  else 0

/-- `fs::path(dir) / name` for a relative name. -/
def pathIn (dir name : String) : String :=
  if dir = "" ∨ dir.toList.getLast? = some '/' then dir ++ name else dir ++ "/" ++ name

/-- The value of a decimal digit; of any other character, what the subtraction gives. -/
def digitValue (c : Char) : Nat := c.toNat - '0'.toNat

def isDecimal (c : Char) : Bool := '0' ≤ c && c ≤ '9'

/-- `strtoull` in base 10 on digits only: the value, or the largest one and a range error. -/
def strtoull (digits : List Char) : UInt64 × Bool :=
  let number := FixedWidth.value 10 (digits.map digitValue)
  if number < 2 ^ 64 then (UInt64.ofNat number, false) else (UInt64.ofNat (2 ^ 64 - 1), true)

def parseAtomic (s : String) : Option UInt64 :=
  if s = "" ∨ s.toList.any (fun c => !isDecimal c) then
    none
  else
    let (out, rangeError) := strtoull s.toList
    if rangeError then none else some out

def isHexDigit (c : Char) : Bool :=
  ('0' ≤ c && c ≤ '9') || ('a' ≤ c && c ≤ 'f') || ('A' ≤ c && c ≤ 'F')

/-- The loop of `looksLikeTxid` from `start` on, at the text from there. A turn passes one
comma, so one more than the text's length is enough fuel. -/
def looksLikeTxidFrom : (fuel : Nat) → List Char → Bool
  | 0, _ => false
  | fuel + 1, text =>
      let one := text.takeWhile (· != ',')
      if one.length != 64 then false
      else if one.any (fun c => !isHexDigit c) then false
      else
        match text.dropWhile (· != ',') with
        | [] => true
        | _ :: rest => looksLikeTxidFrom fuel rest

def looksLikeTxid (joined : String) : Bool :=
  if joined = "" then false else looksLikeTxidFrom (joined.length + 1) joined.toList

end MoneroWalletCore.Runtime
