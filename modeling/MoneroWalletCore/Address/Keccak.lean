import Mathlib.Data.List.Basic

/-! The module's own Keccak-256, with the original padding byte 0x01 that Monero uses.
The permutation works in place on twenty-five lanes, and each loop of the source is a fold
over the same indices in the same order.
-/

namespace MoneroWalletCore.Address

/-- The sponge state, `uint64_t st[25]`. -/
@[ext] structure Lanes where
  lanes : List UInt64
  length_eq : lanes.length = 25

def rc : List UInt64 :=
  [
    0x0000000000000001, 0x0000000000008082, 0x800000000000808a, 0x8000000080008000,
    0x000000000000808b, 0x0000000080000001, 0x8000000080008081, 0x8000000000008009,
    0x000000000000008a, 0x0000000000000088, 0x0000000080008009, 0x000000008000000a,
    0x000000008000808b, 0x800000000000008b, 0x8000000000008089, 0x8000000000008003,
    0x8000000000008002, 0x8000000000000080, 0x000000000000800a, 0x800000008000000a,
    0x8000000080008081, 0x8000000000008080, 0x0000000080000001, 0x8000000080008008
  ]

def rot : List Nat :=
  [1, 3, 6, 10, 15, 21, 28, 36, 45, 55, 2, 14, 27, 41, 56, 8, 25, 43, 62, 18, 39, 61, 20, 44]

def pil : List Nat :=
  [10, 7, 11, 17, 18, 3, 5, 16, 8, 21, 24, 4, 15, 23, 19, 13, 12, 2, 20, 14, 22, 9, 6, 1]

def rotl (x : UInt64) (n : Nat) : UInt64 :=
  (x <<< UInt64.ofNat n) ||| (x >>> UInt64.ofNat (64 - n))

namespace Lanes

/-- `uint64_t st[25] = {0}`. -/
def zero : Lanes := ⟨List.replicate 25 0, rfl⟩

def lane (st : Lanes) (i : Nat) : UInt64 := st.lanes.getD i 0

/-- The state with one lane assigned. -/
def put (st : Lanes) (i : Nat) (value : UInt64) : Lanes :=
  ⟨st.lanes.set i value, by rw [List.length_set, st.length_eq]⟩

end Lanes

/-- The column parities `bc`, and each column's lanes xored with its neighbours' parities. -/
def columnMix (st : Lanes) : Lanes :=
  let bc := (List.range 5).map fun i =>
    st.lane i ^^^ st.lane (i + 5) ^^^ st.lane (i + 10) ^^^ st.lane (i + 15) ^^^ st.lane (i + 20)
  (List.range 5).foldl
    (fun st i =>
      let t := bc.getD ((i + 4) % 5) 0 ^^^ rotl (bc.getD ((i + 1) % 5) 0) 1
      [0, 5, 10, 15, 20].foldl (fun st j => st.put (j + i) (st.lane (j + i) ^^^ t)) st)
    st

/-- The in-place cycle through one temporary: each lane moves on, rotated, to the next. -/
def rotateAlong (st : Lanes) : Lanes :=
  ((pil.zip rot).foldl
    (fun (st, t) (j, n) => (st.put j (rotl t n), st.lane j))
    (st, st.lane 1)).1

/-- Each row's lanes, read before any of them is written, combined with the next two. -/
def rowMix (st : Lanes) : Lanes :=
  [0, 5, 10, 15, 20].foldl
    (fun st j =>
      let bc := (List.range 5).map fun i => st.lane (j + i)
      (List.range 5).foldl
        (fun st i =>
          st.put (j + i)
            (st.lane (j + i) ^^^ (~~~(bc.getD ((i + 1) % 5) 0) &&& bc.getD ((i + 2) % 5) 0)))
        st)
    st

def addConstant (st : Lanes) (constant : UInt64) : Lanes := st.put 0 (st.lane 0 ^^^ constant)

def keccakRound (st : Lanes) (constant : UInt64) : Lanes :=
  addConstant (rowMix (rotateAlong (columnMix st))) constant

def keccakf (st : Lanes) : Lanes := rc.foldl keccakRound st

def rate : Nat := 136

/-- Eight bytes as the lane `memcpy` reads on a little-endian machine. -/
def loadLane (bytes : List UInt8) : UInt64 :=
  bytes.foldr (fun byte lane => lane <<< 8 ||| byte.toUInt64) 0

def storeLane (lane : UInt64) : List UInt8 :=
  (List.range 8).map fun i => (lane >>> UInt64.ofNat (8 * i)).toUInt8

def xorBlock (st : Lanes) (block : List UInt8) : Lanes :=
  (List.range (rate / 8)).foldl
    (fun st i => st.put i (st.lane i ^^^ loadLane ((block.drop (i * 8)).take 8))) st

/-- The full blocks, and what is left for the padded one. A turn consumes a whole block, so
the input's length is enough fuel. -/
def absorbFull : (fuel : Nat) → Lanes → List UInt8 → Lanes × List UInt8
  | 0, st, input => (st, input)
  | fuel + 1, st, input =>
      if rate ≤ input.length then
        absorbFull fuel (keccakf (xorBlock st (input.take rate))) (input.drop rate)
      else
        (st, input)

/-- `tmp`: the rest of the input, zeros, and the two padding bits, which may share a byte. -/
def padBlock (rest : List UInt8) : List UInt8 :=
  let tmp := rest ++ List.replicate (rate - rest.length) 0
  let tmp := tmp.set rest.length (tmp.getD rest.length 0 ||| 0x01)
  tmp.set (rate - 1) (tmp.getD (rate - 1) 0 ||| 0x80)

def keccak256 (input : List UInt8) : List UInt8 :=
  let (st, rest) := absorbFull input.length Lanes.zero input
  let st := keccakf (xorBlock st (padBlock rest))
  (List.range 4).flatMap fun i => storeLane (st.lane i)

-----------------------------------------------------------------------------------------
-- Evaluating a whole permutation lane by lane
-----------------------------------------------------------------------------------------

/-- A number handed on only once it is evaluated: the match needs its value. -/
def evaluated {α : Type} (number : Nat) (next : Nat → α) : α :=
  match number with
  | 0 => next 0
  | less + 1 => next (less + 1)

/-- A list handed on with every lane evaluated. -/
def evaluatedList {α : Type} : (lanes : List UInt64)
    → ((same : List UInt64) → same.length = lanes.length → α) → α
  | [], next => next [] rfl
  | lane :: rest, next =>
      evaluated lane.toNat fun number =>
        evaluatedList rest fun same length =>
          next (UInt64.ofNat number :: same) (by simp [length])

def Lanes.evaluated {α : Type} (st : Lanes) (next : Lanes → α) : α :=
  evaluatedList st.lanes fun same length => next ⟨same, length.trans st.length_eq⟩

/-- `keccakf` with each round's lanes evaluated before the next round starts. -/
def evaluatedRounds : List UInt64 → Lanes → Lanes
  | [], st => st
  | constant :: rest, st =>
      (columnMix st).evaluated fun st =>
        (rotateAlong st).evaluated fun st =>
          (addConstant (rowMix st) constant).evaluated (evaluatedRounds rest)

theorem evaluated_eq {α : Type} (number : Nat) (next : Nat → α)
    : evaluated number next = next number := by
  cases number <;> rfl

theorem evaluatedList_eq {α : Type} (lanes : List UInt64)
    (next : (same : List UInt64) → same.length = lanes.length → α)
    : evaluatedList lanes next = next lanes rfl := by
  induction lanes with
  | nil => rfl
  | cons lane rest ih => simp only [evaluatedList, evaluated_eq, ih, UInt64.ofNat_toNat]

theorem Lanes.evaluated_eq {α : Type} (st : Lanes) (next : Lanes → α)
    : st.evaluated next = next st :=
  evaluatedList_eq _ _

/-- The evaluation order changes no result, by induction on the rounds. -/
theorem keccakf_eq_evaluated (st : Lanes) : keccakf st = evaluatedRounds rc st := by
  have rounds (constants : List UInt64) (st : Lanes)
      : constants.foldl keccakRound st = evaluatedRounds constants st := by
    induction constants generalizing st with
    | nil => rfl
    | cons constant rest ih =>
        simp only [List.foldl_cons, evaluatedRounds, Lanes.evaluated_eq, ih]
        rfl
  exact rounds rc st

end MoneroWalletCore.Address
