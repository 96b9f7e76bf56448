import Mathlib.Data.List.Forall2

/-! Cutting a list into blocks of one size with a shorter last block, and gluing blocks back.
A list of blocks is well cut when every block but the last is full and the last is not empty;
cutting and gluing are inverse exactly on these.
-/

namespace Blocks

variable {α β : Type*}

/-- Blocks of `size` elements, the last one shorter; `fuel` bounds the number of blocks. -/
def cutWithin (size : Nat) : (fuel : Nat) → List α → List (List α)
  | _, [] => []
  | 0, _ :: _ => []
  | fuel + 1, head :: rest =>
      (head :: rest).take size :: cutWithin size fuel ((head :: rest).drop size)

/-- The blocks of a list. Each block takes at least one element, so the length is enough fuel. -/
def cut (size : Nat) (items : List α) : List (List α) := cutWithin size items.length items

/-- Full blocks, then at most one shorter nonempty block. -/
inductive WellCut (size : Nat) : List (List α) → Prop
  | nil : WellCut size []
  | last {block} (nonempty : block ≠ []) (short : block.length ≤ size) : WellCut size [block]
  | cons {block rest} (full : block.length = size) (tail : WellCut size rest)
    : WellCut size (block :: rest)

/-- Any fuel that covers the length gives the same blocks, by induction on the fuel. -/
theorem cutWithin_eq {size : Nat} (positive : 0 < size) {fuel more : Nat} {items : List α}
    (enough : items.length ≤ fuel) (later : items.length ≤ more)
    : cutWithin size fuel items = cutWithin size more items := by
  induction fuel generalizing more items with
  | zero =>
      have empty : items = [] := List.length_eq_zero_iff.mp (by omega)
      subst empty
      cases more <;> rfl
  | succ fuel ih =>
      cases items with
      | nil => cases more <;> rfl
      | cons head rest =>
          obtain ⟨more, rfl⟩ : ∃ less, more = less + 1 :=
            ⟨more - 1, by simp only [List.length_cons] at later; omega⟩
          have shorter : ((head :: rest).drop size).length ≤ rest.length := by
            simp only [List.length_drop, List.length_cons]
            omega
          simp only [List.length_cons] at enough later
          have remaining := ih (Nat.le_trans shorter (by omega : rest.length ≤ fuel))
            (Nat.le_trans shorter (by omega : rest.length ≤ more))
          rw [cutWithin, cutWithin, remaining]

@[simp] theorem cut_nil (size : Nat) : cut size ([] : List α) = [] := rfl

/-- A nonempty list starts with its first block. -/
theorem cut_of_ne_nil {size : Nat} (positive : 0 < size) {items : List α} (nonempty : items ≠ [])
    : cut size items = items.take size :: cut size (items.drop size) := by
  cases items with
  | nil => contradiction
  | cons head rest =>
      have shorter : ((head :: rest).drop size).length ≤ rest.length := by
        simp only [List.length_drop, List.length_cons]
        omega
      rw [cut, List.length_cons, cutWithin, cutWithin_eq positive shorter (Nat.le_refl _)]
      rfl

/-- Cutting an appended full block peels exactly that block. -/
theorem cut_append {size : Nat} (positive : 0 < size) {block rest : List α}
    (full : block.length = size)
    : cut size (block ++ rest) = block :: cut size rest := by
  have nonempty : block ++ rest ≠ [] := by
    intro empty
    have lengths := congrArg List.length empty
    simp only [List.length_append, List.length_nil] at lengths
    omega
  rw [cut_of_ne_nil positive nonempty, ← full, List.take_left, List.drop_left]

/-- A nonempty list no longer than one block is one block. -/
theorem cut_short {size : Nat} {items : List α} (nonempty : items ≠ [])
    (short : items.length ≤ size)
    : cut size items = [items] := by
  have positive : 0 < size := Nat.lt_of_lt_of_le (List.length_pos_iff.mpr nonempty) short
  rw [cut_of_ne_nil positive nonempty, List.take_of_length_le short,
    List.drop_eq_nil_of_le short, cut_nil]

/-- Gluing the blocks of a list gives the list, by strong induction on its length. -/
theorem flatten_cut {size : Nat} (positive : 0 < size) (items : List α)
    : (cut size items).flatten = items := by
  induction length : items.length using Nat.strongRecOn generalizing items with
  | ind length ih =>
      by_cases nonempty : items = []
      · simp [nonempty]
      · have first := List.length_pos_iff.mpr nonempty
        rw [cut_of_ne_nil positive nonempty, List.flatten_cons,
          ih (items.drop size).length (by rw [List.length_drop]; omega) (items.drop size) rfl,
          List.take_append_drop]

/-- Cutting always produces a well-cut list, by strong induction on the length. -/
theorem wellCut_cut {size : Nat} (positive : 0 < size) (items : List α)
    : WellCut size (cut size items) := by
  induction length : items.length using Nat.strongRecOn generalizing items with
  | ind length ih =>
      by_cases nonempty : items = []
      · simpa [nonempty] using WellCut.nil
      · have first := List.length_pos_iff.mpr nonempty
        by_cases short : items.length ≤ size
        · rw [cut_short nonempty short]
          exact .last nonempty short
        · rw [cut_of_ne_nil positive nonempty]
          refine .cons (by rw [List.length_take]; omega) ?_
          exact ih (items.drop size).length (by rw [List.length_drop]; omega) (items.drop size) rfl

/-- Cutting a glued well-cut list recovers its blocks. -/
theorem WellCut.cut_flatten {size : Nat} (positive : 0 < size) {blocks : List (List α)}
    (well : WellCut size blocks)
    : cut size blocks.flatten = blocks := by
  induction well with
  | nil => rfl
  | last nonempty short => simpa using cut_short nonempty short
  | cons full _ ih => rw [List.flatten_cons, cut_append positive full, ih]

/-- Every block of a well-cut list is nonempty and fits the size. -/
theorem WellCut.bounds {size : Nat} (positive : 0 < size) {blocks : List (List α)}
    (well : WellCut size blocks)
    : ∀ block ∈ blocks, block ≠ [] ∧ block.length ≤ size := by
  induction well with
  | nil => simp
  | last nonempty short => simpa using ⟨nonempty, short⟩
  | @cons block rest full _ ih =>
      intro other member
      rcases List.mem_cons.mp member with rfl | later
      · exact ⟨List.ne_nil_of_length_pos (by omega), Nat.le_of_eq full⟩
      · exact ih other later

/-- A block map that sends full blocks to full blocks keeps a list well cut. -/
theorem WellCut.map {size next : Nat} {blocks : List (List α)} (well : WellCut size blocks)
    {f : List α → List β} (full : ∀ block ∈ blocks, block.length = size → (f block).length = next)
    (short : ∀ block ∈ blocks,
      block ≠ [] → block.length ≤ size → f block ≠ [] ∧ (f block).length ≤ next)
    : WellCut next (blocks.map f) := by
  induction well with
  | nil => exact .nil
  | last nonempty bound =>
      obtain ⟨kept, fits⟩ := short _ (by simp) nonempty bound
      exact .last kept fits
  | cons same _ ih =>
      refine .cons (full _ (by simp) same) (ih ?_ ?_)
      · exact fun block member => full block (List.mem_cons_of_mem _ member)
      · exact fun block member => short block (List.mem_cons_of_mem _ member)

-----------------------------------------------------------------------------------------
-- Decoding block by block
-----------------------------------------------------------------------------------------

/-- Decode each block and append the results, giving up at the first block that fails. -/
def gather (decode : List α → Option (List β)) (blocks : List (List α)) : Option (List β) :=
  blocks.foldlM (fun out block => (decode block).map (out ++ ·)) []

/-- A gathering succeeds exactly when every block decodes, by induction with the output so far. -/
theorem foldlM_append_eq_some {decode : List α → Option (List β)} {blocks : List (List α)}
    {before result : List β}
    : blocks.foldlM (fun out block => (decode block).map (out ++ ·)) before = some result
      ↔ ∃ outs,
          List.Forall₂ (fun block out => decode block = some out) blocks outs
          ∧ result = before ++ outs.flatten := by
  induction blocks generalizing before with
  | nil =>
      simp only [List.foldlM_nil, Option.pure_def, Option.some.injEq, List.forall₂_nil_left_iff,
        exists_eq_left, List.flatten_nil, List.append_nil]
      exact eq_comm
  | cons block rest ih =>
      cases found : decode block with
      | none =>
          simp only [List.foldlM_cons, found, Option.map_none, Option.bind_eq_bind,
            Option.bind_none, reduceCtorEq, false_iff]
          rintro ⟨outs, related, -⟩
          cases related with
          | cons head _ => simp [found] at head
      | some out =>
          simp only [List.foldlM_cons, found, Option.map_some, Option.bind_eq_bind,
            Option.bind_some, ih]
          constructor
          · rintro ⟨outs, related, rfl⟩
            exact ⟨out :: outs, .cons found related, by simp⟩
          · rintro ⟨outs, related, rfl⟩
            cases related with
            | @cons _ first _ outs head tail =>
                have same : out = first := Option.some.inj (found.symm.trans head)
                subst same
                exact ⟨outs, tail, by simp⟩

theorem gather_eq_some {decode : List α → Option (List β)} {blocks : List (List α)}
    {result : List β}
    : gather decode blocks = some result
      ↔ ∃ outs,
          List.Forall₂ (fun block out => decode block = some out) blocks outs
          ∧ result = outs.flatten := by
  rw [gather, foldlM_append_eq_some]
  simp only [List.nil_append]

end Blocks
