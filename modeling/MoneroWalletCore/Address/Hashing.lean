import MoneroWalletCore.Address.Keccak
import MoneroWalletCore.Foundation.KeccakSponge
import Mathlib.Data.Fintype.Basic
import Mathlib.Tactic.FinCases

/-! The module's in-place Keccak computes Keccak-256. Each loop of a round is one of the steps of
the specification, read at the lane's position in the array; the blocks it absorbs are those of
the padded message.
-/

namespace MoneroWalletCore.Address

open Keccak (theta rho pi chi iota)

-----------------------------------------------------------------------------------------
-- Lanes of the array
-----------------------------------------------------------------------------------------

/-- Where the array's lane at a position is in the state. -/
def position (x y : Fin 5) : Nat := 5 * y.val + x.val

theorem position_lt (x y : Fin 5) : position x y < 25 := by
  unfold position
  omega

/-- The places of all lanes, column by column. -/
def places : List Nat := (List.range 5).flatMap fun i => [0, 5, 10, 15, 20].map (· + i)

theorem position_mem (x y : Fin 5) : position x y ∈ places := by
  revert x y
  decide

theorem position_mod (x y : Fin 5) : position x y % 5 = x.val := by
  unfold position
  omega

theorem val_sub_one (x : Fin 5) : (x - 1).val = (x.val + 4) % 5 := by
  revert x
  decide

/-- The state as the array of the specification. -/
def Lanes.array (st : Lanes) : Keccak.Lanes := fun x y => (st.lane (position x y)).toBitVec

namespace Lanes

theorem lane_put {st : Lanes} {i k : Nat} {value : UInt64} (within : k < 25)
    : (st.put i value).lane k = if i = k then value else st.lane k := by
  have bound : k < st.lanes.length := st.length_eq ▸ within
  by_cases same : i = k
  · subst same
    simp [lane, put, List.getD_eq_getElem?_getD, bound]
  · simp [lane, put, List.getD_eq_getElem?_getD, List.getElem?_set_ne same, same]

/-- A loop that assigns each of some lanes once, from what the lane held. -/
theorem lane_foldl_put {g : Nat → UInt64 → UInt64} {places : List Nat} (nodup : places.Nodup)
    (st : Lanes) {k : Nat} (within : k < 25)
    : (places.foldl (fun st i => st.put i (g i (st.lane i))) st).lane k
      = if k ∈ places then g k (st.lane k) else st.lane k := by
  induction places generalizing st with
  | nil => rfl
  | cons i rest ih =>
      obtain ⟨new, nodup⟩ := List.nodup_cons.mp nodup
      rw [List.foldl_cons, ih nodup, lane_put within]
      by_cases same : i = k
      · subst same
        simp [new]
      · simp [same, Ne.symm same]

end Lanes

theorem toBitVec_rotl (x : UInt64) {n : Nat} (positive : 0 < n) (bound : n < 64)
    : (rotl x n).toBitVec = x.toBitVec.rotateLeft n := by
  have amount {k : Nat} (small : k < 64)
      : ((UInt64.ofNat k).toBitVec % (64 : BitVec 64)).toNat = k := by
    simp
    omega
  rw [BitVec.rotateLeft_def, Nat.mod_eq_of_lt bound, rotl, UInt64.toBitVec_or,
    UInt64.toBitVec_shiftLeft, UInt64.toBitVec_shiftRight, BitVec.shiftLeft_eq',
    BitVec.ushiftRight_eq', amount bound, amount (by omega)]

-----------------------------------------------------------------------------------------
-- The steps of a round
-----------------------------------------------------------------------------------------

/-- The parities that the source computes before it writes. -/
def columns (st : Lanes) : List UInt64 :=
  (List.range 5).map fun i =>
    st.lane i ^^^ st.lane (i + 5) ^^^ st.lane (i + 10) ^^^ st.lane (i + 15) ^^^ st.lane (i + 20)

/-- What a column's lanes are xored with. -/
def columnChange (st : Lanes) (i : Nat) : UInt64 :=
  (columns st).getD ((i + 4) % 5) 0 ^^^ rotl ((columns st).getD ((i + 1) % 5) 0) 1

theorem toBitVec_columns (st : Lanes) (x : Fin 5)
    : ((columns st).getD x.val 0).toBitVec = Keccak.parity st.array x := by
  fin_cases x <;> rfl

theorem array_columnMix (st : Lanes) : (columnMix st).array = theta st.array := by
  funext x y
  have flat : columnMix st
      = places.foldl (fun later k => later.put k (later.lane k ^^^ columnChange st (k % 5))) st := by
    rw [places, List.foldl_flatMap]
    refine List.foldl_ext _ _ _ fun later i member => ?_
    rw [List.foldl_map]
    refine List.foldl_ext _ _ _ fun later j row => ?_
    have column : (j + i) % 5 = i := by
      have bound : i < 5 := List.mem_range.mp member
      simp only [List.mem_cons, List.not_mem_nil, or_false] at row
      omega
    rw [column]
    rfl
  have each := @Lanes.lane_foldl_put (fun k old => old ^^^ columnChange st (k % 5)) _
    (by decide : places.Nodup) st _ (position_lt x y)
  rw [if_pos (position_mem x y), position_mod] at each
  have after : (x.val + 1) % 5 = (x + 1).val := rfl
  rw [Lanes.array, flat, each, columnChange, ← val_sub_one, after, UInt64.toBitVec_xor,
    UInt64.toBitVec_xor, toBitVec_rotl _ (by decide) (by decide), toBitVec_columns,
    toBitVec_columns]
  rfl

/-- Where the lane that reaches a place comes from, and its rotation: the temporary holds the
lane of the place before it in the cycle. -/
def cycleSource (place : Nat) : (held : Nat) → List (Nat × Nat) → Option (Nat × Nat)
  | _, [] => none
  | held, (j, n) :: rest => if place = j then some (held, n) else cycleSource place j rest

theorem cycleSource_of_not_mem {steps : List (Nat × Nat)} {place : Nat}
    (absent : place ∉ steps.map Prod.fst) (held : Nat)
    : cycleSource place held steps = none := by
  induction steps generalizing held with
  | nil => rfl
  | cons step rest ih =>
      simp only [List.map_cons, List.mem_cons, not_or] at absent
      rw [cycleSource, if_neg absent.1, ih absent.2]

/-- A lane after the cycle, by induction on the places it passes. Each is read before it is
written, and written once. -/
theorem lane_cycle {steps : List (Nat × Nat)} (nodup : (steps.map Prod.fst).Nodup)
    {before later : Lanes} {held place : Nat} (within : place < 25)
    (inside : ∀ j ∈ steps.map Prod.fst, j < 25)
    (unwritten : ∀ j ∈ steps.map Prod.fst, later.lane j = before.lane j)
    : (steps.foldl (fun (st, t) (j, n) => (st.put j (rotl t n), st.lane j))
          (later, before.lane held)).1.lane place
      = match cycleSource place held steps with
        | none => later.lane place
        | some (source, n) => rotl (before.lane source) n := by
  induction steps generalizing later held with
  | nil => rfl
  | cons step rest ih =>
      obtain ⟨j, n⟩ := step
      obtain ⟨new, nodup⟩ := List.nodup_cons.mp nodup
      have read : later.lane j = before.lane j := unwritten j (by simp)
      rw [List.foldl_cons]
      dsimp only
      rw [read, ih nodup]
      · by_cases here : place = j
        · subst here
          rw [cycleSource, if_pos rfl, cycleSource_of_not_mem new]
          exact (Lanes.lane_put within).trans (if_pos rfl)
        · rw [cycleSource, if_neg here, Lanes.lane_put within, if_neg (Ne.symm here)]
      · exact fun k member => inside k (List.mem_cons_of_mem _ member)
      · intro k member
        have other : j ≠ k := by
          rintro rfl
          exact new member
        rw [Lanes.lane_put (inside k (List.mem_cons_of_mem _ member)), if_neg other]
        exact unwritten k (List.mem_cons_of_mem _ member)

/-- The tables make up one cycle: every lane but the first is moved and rotated as rho and pi
say. -/
theorem cycle_table
    : ∀ x y : Fin 5,
        cycleSource (position x y) 1 (pil.zip rot)
          = if x = 0 ∧ y = 0 then none
            else some (position (x + 3 * y) x, Keccak.offset (x + 3 * y) x % 64) := by
  decide +kernel

theorem offset_positive
    : ∀ x y : Fin 5, ¬(x = 0 ∧ y = 0) → 0 < Keccak.offset (x + 3 * y) x % 64 := by
  decide +kernel

/-- The in-place loop is rho followed by pi, for every state. -/
theorem array_rotateAlong (st : Lanes) : (rotateAlong st).array = pi (rho st.array) := by
  funext x y
  have cycle := @lane_cycle (pil.zip rot) (by decide) st st 1 _ (position_lt x y) (by decide)
    fun _ _ => rfl
  rw [cycle_table] at cycle
  rw [Lanes.array, rotateAlong, cycle]
  by_cases origin : x = 0 ∧ y = 0
  · obtain ⟨rfl, rfl⟩ := origin
    rw [if_pos ⟨rfl, rfl⟩]
    change (st.lane 0).toBitVec = (st.lane 0).toBitVec.rotateLeft 0
    rw [BitVec.rotateLeft_def, BitVec.ushiftRight_eq_zero (by decide), BitVec.or_zero,
      Nat.zero_mod, BitVec.shiftLeft_zero]
  · rw [if_neg origin]
    dsimp only
    rw [toBitVec_rotl _ (offset_positive x y origin) (Nat.mod_lt _ (by decide)),
      BitVec.rotateLeft_mod_eq_rotateLeft]
    rfl

/-- A lane combined with the next two of its row. -/
def rowCombined (st : Lanes) (k : Nat) : UInt64 :=
  st.lane k ^^^ (~~~(st.lane (5 * (k / 5) + (k % 5 + 1) % 5))
    &&& st.lane (5 * (k / 5) + (k % 5 + 2) % 5))

/-- One row of the loop. -/
def rowStep (st : Lanes) (j : Nat) : Lanes :=
  let bc := (List.range 5).map fun i => st.lane (j + i)
  (List.range 5).foldl
    (fun st i =>
      st.put (j + i)
        (st.lane (j + i) ^^^ (~~~(bc.getD ((i + 1) % 5) 0) &&& bc.getD ((i + 2) % 5) 0)))
    st

theorem lane_rowStep {st : Lanes} {row k : Nat} (within : k < 25)
    : (rowStep st (5 * row)).lane k = if k / 5 = row then rowCombined st k else st.lane k := by
  let bc := (List.range 5).map fun i => st.lane (5 * row + i)
  have read {i : Nat} (bound : i < 5) : bc.getD i 0 = st.lane (5 * row + i) := by
    simp [bc, List.getD_eq_getElem?_getD, bound]
  have flat : rowStep st (5 * row)
      = ((List.range 5).map (5 * row + ·)).foldl
          (fun later k => later.put k (later.lane k
            ^^^ (~~~(bc.getD ((k - 5 * row + 1) % 5) 0) &&& bc.getD ((k - 5 * row + 2) % 5) 0)))
          st := by
    rw [List.foldl_map]
    refine List.foldl_ext _ _ _ fun later i _ => ?_
    rw [Nat.add_sub_cancel_left]
  have nodup : ((List.range 5).map (5 * row + ·)).Nodup :=
    List.nodup_range.map fun _ _ same => Nat.add_left_cancel same
  have each := @Lanes.lane_foldl_put
    (fun k old =>
      old ^^^ (~~~(bc.getD ((k - 5 * row + 1) % 5) 0) &&& bc.getD ((k - 5 * row + 2) % 5) 0))
    _ nodup st _ within
  have member : k ∈ (List.range 5).map (5 * row + ·) ↔ k / 5 = row := by
    rw [List.mem_map]
    constructor
    · rintro ⟨i, bound, rfl⟩
      have bound := List.mem_range.mp bound
      omega
    · intro same
      exact ⟨k % 5, List.mem_range.mpr (by omega), by omega⟩
  rw [flat, each]
  by_cases same : k / 5 = row
  · rw [if_pos (member.mpr same), if_pos same, read (Nat.mod_lt _ (by omega)),
      read (Nat.mod_lt _ (by omega)), rowCombined, same]
    have column : k - 5 * row = k % 5 := by omega
    rw [column]
  · rw [if_neg (mt member.mp same), if_neg same]

/-- The rows are independent of each other. Induction on those still to be done. -/
theorem lane_rows {rows : List Nat} (nodup : rows.Nodup) (st : Lanes) {k : Nat} (within : k < 25)
    : (rows.foldl (fun st row => rowStep st (5 * row)) st).lane k
      = if k / 5 ∈ rows then rowCombined st k else st.lane k := by
  induction rows generalizing st with
  | nil => rfl
  | cons row rest ih =>
      obtain ⟨new, nodup⟩ := List.nodup_cons.mp nodup
      rw [List.foldl_cons, ih nodup, lane_rowStep within]
      by_cases same : k / 5 = row
      · subst same
        simp [new]
      · have apart {i : Nat} (bound : i < 5)
            : (rowStep st (5 * row)).lane (5 * (k / 5) + i) = st.lane (5 * (k / 5) + i) := by
          rw [lane_rowStep (by omega), if_neg (by omega)]
        have kept : rowCombined (rowStep st (5 * row)) k = rowCombined st k := by
          rw [rowCombined, apart (Nat.mod_lt _ (by omega)), apart (Nat.mod_lt _ (by omega)),
            lane_rowStep within, if_neg same, rowCombined]
        simp [same, kept]

theorem array_rowMix (st : Lanes) : (rowMix st).array = chi st.array := by
  funext x y
  have rows : rowMix st = (List.range 5).foldl (fun st row => rowStep st (5 * row)) st := by
    have offsets : [0, 5, 10, 15, 20] = (List.range 5).map (5 * ·) := rfl
    rw [rowMix, offsets, List.foldl_map]
    rfl
  have row : position x y / 5 = y.val := by
    unfold position
    omega
  have inside : position x y / 5 ∈ List.range 5 := List.mem_range.mpr (row ▸ y.isLt)
  rw [Lanes.array, rows, lane_rows List.nodup_range st (position_lt x y), if_pos inside, rowCombined,
    row, position_mod]
  rfl

theorem array_addConstant (st : Lanes) (constant : UInt64)
    : (addConstant st constant).array = iota constant.toBitVec st.array := by
  funext x y
  rw [Lanes.array, addConstant, Lanes.lane_put (position_lt x y), iota]
  have origin : 0 = position x y ↔ x = 0 ∧ y = 0 := by
    revert x y
    decide
  by_cases here : x = 0 ∧ y = 0
  · obtain ⟨rfl, rfl⟩ := here
    rfl
  · rw [if_neg (mt origin.mp here), if_neg here]
    rfl

theorem array_keccakRound (st : Lanes) (constant : UInt64)
    : (keccakRound st constant).array = Keccak.round st.array constant.toBitVec := by
  rw [keccakRound, array_addConstant, array_rowMix, array_rotateAlong, array_columnMix]
  rfl

/-- The constants are those of the shift register. -/
theorem rc_table : rc.map UInt64.toBitVec = (List.range 24).map Keccak.roundConstant := by
  decide +kernel

/-- The permutation, round by round. -/
theorem array_keccakf (st : Lanes) : (keccakf st).array = Keccak.permute st.array := by
  rw [Keccak.permute, ← rc_table, List.foldl_map, keccakf]
  generalize rc = constants
  induction constants generalizing st with
  | nil => rfl
  | cons constant rest ih => rw [List.foldl_cons, List.foldl_cons, ih, array_keccakRound]

-----------------------------------------------------------------------------------------
-- The sponge
-----------------------------------------------------------------------------------------

theorem littleEndian_cons (byte : UInt8) (rest : List UInt8)
    : Keccak.littleEndian (byte :: rest) = byte.toNat + 256 * Keccak.littleEndian rest := by
  simp [Keccak.littleEndian, Nat.ofDigits_cons]

/-- Bytes past the eighth are shifted out of the lane. -/
theorem loadLane_toNat (bytes : List UInt8)
    : (loadLane bytes).toNat = Keccak.littleEndian bytes % 2 ^ 64 := by
  induction bytes with
  | nil => rfl
  | cons byte rest ih =>
      have small : byte.toNat < 2 ^ 8 := byte.toNat_lt
      have shifted : ((loadLane rest) <<< 8).toNat = (Keccak.littleEndian rest * 2 ^ 8) % 2 ^ 64 := by
        rw [UInt64.toNat_shiftLeft, ih, Nat.shiftLeft_eq]
        change Keccak.littleEndian rest % 2 ^ 64 * 2 ^ 8 % 2 ^ 64 = _
        rw [Nat.mod_mul_mod]
      have low : Keccak.littleEndian rest * 2 ^ 8 % 2 ^ 64
          = (Keccak.littleEndian rest % 2 ^ 56) <<< 8 := by
        rw [Nat.shiftLeft_eq]
        omega
      have split : loadLane (byte :: rest) = (loadLane rest) <<< 8 ||| byte.toUInt64 := rfl
      rw [split, UInt64.toNat_or, shifted, UInt8.toNat_toUInt64, low,
        ← Nat.shiftLeft_add_eq_or_of_lt small, Nat.shiftLeft_eq, littleEndian_cons]
      omega

theorem loadLane_toBitVec (bytes : List UInt8)
    : (loadLane bytes).toBitVec = BitVec.ofNat 64 (Keccak.littleEndian bytes) :=
  BitVec.eq_of_toNat_eq (loadLane_toNat bytes)

theorem storeLane_eq (lane : UInt64)
    : storeLane lane = (List.range 8).map (Keccak.laneByte lane.toBitVec) := by
  refine List.map_congr_left fun i member => ?_
  have bound : i < 8 := List.mem_range.mp member
  have amount : (UInt64.ofNat (8 * i)).toNat % 64 = 8 * i := by
    rw [UInt64.toNat_ofNat']
    omega
  refine UInt8.toNat_inj.mp ?_
  rw [UInt64.toNat_toUInt8, UInt64.toNat_shiftRight, amount, Nat.shiftRight_eq_div_pow,
    Keccak.laneByte, UInt8.toNat_ofNat', Nat.pow_mul]
  rfl

theorem lane_xorBlock {st : Lanes} {block : List UInt8} {k : Nat} (within : k < 25)
    : (xorBlock st block).lane k
      = if k < 17 then st.lane k ^^^ loadLane ((block.drop (k * 8)).take 8) else st.lane k := by
  have each := @Lanes.lane_foldl_put
    (fun i old => old ^^^ loadLane ((block.drop (i * 8)).take 8)) _
    (List.nodup_range : (List.range 17).Nodup) st _ within
  simp only [List.mem_range] at each
  exact each

/-- The lanes past the block see no byte of it. -/
theorem array_xorBlock (st : Lanes) {block : List UInt8} (fits : block.length ≤ rate)
    : (xorBlock st block).array = Keccak.absorb st.array block := by
  funext x y
  rw [Lanes.array, lane_xorBlock (position_lt x y), Keccak.absorb]
  have bytes : 8 * (5 * y.val + x.val) = position x y * 8 := by
    unfold position
    omega
  rw [bytes]
  by_cases inside : position x y < 17
  · rw [if_pos inside, UInt64.toBitVec_xor, loadLane_toBitVec]
    rfl
  · have past : block.length ≤ position x y * 8 := by
      unfold rate at fits
      omega
    rw [if_neg inside, List.drop_eq_nil_of_le past]
    exact (BitVec.xor_zero).symm

/-- The padded block ends the message with the padding of its length. -/
theorem padBlock_eq {rest : List UInt8} (short : rest.length < rate)
    : padBlock rest = rest ++ Keccak.padding rest.length := by
  obtain ⟨more, room⟩ : ∃ more, rate - rest.length = more + 1 :=
    ⟨rate - rest.length - 1, by omega⟩
  have remainder : Keccak.blockBytes - rest.length % Keccak.blockBytes = more + 1 := by
    rw [Nat.mod_eq_of_lt (by exact short)]
    exact room
  rw [padBlock, Keccak.padding, remainder, room, List.replicate_succ]
  cases more with
  | zero =>
      have last : rate - 1 = rest.length := by omega
      simp only [last, List.replicate_zero, List.getD_eq_getElem?_getD, List.set_append_right,
        Nat.le_refl, Nat.sub_self, List.set_cons_zero, List.getElem?_append_right,
        List.getElem?_cons_zero, Option.getD_some]
      rfl
  | succ more =>
      have last : rate - 1 = rest.length + (more + 1) := by omega
      simp [last, List.replicate_succ']

theorem padding_mod (length : Nat)
    : Keccak.padding (length % Keccak.blockBytes) = Keccak.padding length := by
  rw [Keccak.padding, Nat.mod_mod]
  rfl

theorem padding_drop {input : List UInt8} (full : rate ≤ input.length)
    : Keccak.padding (input.drop rate).length = Keccak.padding input.length := by
  rw [← padding_mod, ← padding_mod input.length, List.length_drop]
  exact congrArg Keccak.padding (Nat.mod_eq_sub_mod full).symm

/-- The state after the last block. -/
def absorbed (fuel : Nat) (st : Lanes) (input : List UInt8) : Lanes :=
  keccakf (xorBlock (absorbFull fuel st input).1 (padBlock (absorbFull fuel st input).2))

theorem array_absorb (st : Lanes) {block : List UInt8} (fits : block.length ≤ rate)
    : (keccakf (xorBlock st block)).array = Keccak.permute (Keccak.absorb st.array block) := by
  rw [array_keccakf, array_xorBlock st fits]

/-- The loop and the padded block absorb the blocks of the padded message. Induction on the
fuel, which covers the input. -/
theorem array_absorbed {fuel : Nat} {input : List UInt8} (enough : input.length ≤ fuel) (st : Lanes)
    : (absorbed fuel st input).array
      = (Blocks.cut Keccak.blockBytes (input ++ Keccak.padding input.length)).foldl
          (fun A block => Keccak.permute (Keccak.absorb A block)) st.array := by
  change _ = (Blocks.cut rate _).foldl _ _
  have single {input : List UInt8} (short : input.length < rate) (st : Lanes)
      : (keccakf (xorBlock st (padBlock input))).array
        = (Blocks.cut rate (input ++ Keccak.padding input.length)).foldl
            (fun A block => Keccak.permute (Keccak.absorb A block)) st.array := by
    have length : (padBlock input).length = rate := by
      simp only [padBlock, List.length_set, List.length_append, List.length_replicate]
      omega
    have nonempty : padBlock input ≠ [] := by
      intro empty
      simp [empty, rate] at length
    rw [array_absorb st (Nat.le_of_eq length), ← padBlock_eq short,
      Blocks.cut_short nonempty (Nat.le_of_eq length), List.foldl_cons, List.foldl_nil]
  induction fuel generalizing st input with
  | zero =>
      have empty : input = [] := List.length_eq_zero_iff.mp (Nat.le_zero.mp enough)
      subst empty
      exact @single [] (by decide) st
  | succ fuel ih =>
      by_cases full : rate ≤ input.length
      · have taken : (input.take rate).length = rate := by
          rw [List.length_take]
          omega
        have split : input ++ Keccak.padding input.length
            = input.take rate ++ (input.drop rate ++ Keccak.padding (input.drop rate).length) := by
          rw [padding_drop full, ← List.append_assoc, List.take_append_drop]
        have turn : absorbed (fuel + 1) st input
            = absorbed fuel (keccakf (xorBlock st (input.take rate))) (input.drop rate) := by
          simp only [absorbed, absorbFull, if_pos full]
        have less : (input.drop rate).length ≤ fuel := by
          rw [List.length_drop, rate]
          omega
        rw [turn, ih less, split, Blocks.cut_append (by decide) taken, List.foldl_cons,
          array_absorb st (Nat.le_of_eq taken)]
      · have turn : absorbed (fuel + 1) st input = keccakf (xorBlock st (padBlock input)) := by
          simp only [absorbed, absorbFull, if_neg full]
        rw [turn]
        exact single (by omega) st

theorem array_zero : Lanes.zero.array = fun _ _ => 0 := by
  funext x y
  have lane {k : Nat} (within : k < 25) : Lanes.zero.lane k = 0 := by
    rw [Lanes.lane, Lanes.zero, List.getD_eq_getElem?_getD, List.getElem?_replicate, if_pos within]
    rfl
  rw [Lanes.array, lane (position_lt x y)]
  rfl

theorem digest_array (st : Lanes)
    : (List.range 4).flatMap (fun i => storeLane (st.lane i)) = Keccak.digest st.array := by
  have each (i : Nat) : storeLane (st.lane i) = _ := storeLane_eq (st.lane i)
  simp only [each]
  rfl

/-- The module's hash is Keccak-256 on messages of every length, and its combined loop moves and
rotates the lanes of every state as rho and pi do. -/
theorem keccak256_hashes
    : (∀ input, keccak256 input = Keccak.hash input)
      ∧ ∀ st, (rotateAlong st).array = pi (rho st.array) := by
  refine ⟨fun input => ?_, array_rotateAlong⟩
  have last : keccak256 input
      = (List.range 4).flatMap fun i =>
          storeLane ((absorbed input.length Lanes.zero input).lane i) := rfl
  rw [last, digest_array, array_absorbed (Nat.le_refl _), array_zero]
  rfl

end MoneroWalletCore.Address
