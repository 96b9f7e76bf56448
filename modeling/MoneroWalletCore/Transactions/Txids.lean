import MoneroWalletCore.Runtime.Text

/-! The texts that are shown as transaction ids: hexadecimal ids joined by commas. The loop that
looks for them is run by its turns first, so that its fuel is seen to last.
-/

namespace MoneroWalletCore.Runtime

/-- A transaction hash is 32 bytes as 64 hex characters. -/
def IsTxid (id : List Char) : Prop := id.length = 64 ∧ ∀ c ∈ id, isHexDigit c = true

/-- The part of a text up to its first comma. -/
def firstPart (text : List Char) : List Char := text.takeWhile (· != ',')

/-- A run of the loop from the text at `start` on, with its answer. -/
inductive Scans : List Char → Bool → Prop
  | refused {text} (foreign : ¬IsTxid (firstPart text)) : Scans text false
  | last {text} (id : IsTxid (firstPart text)) (final : text.dropWhile (· != ',') = [])
    : Scans text true
  | next {text comma rest answer} (id : IsTxid (firstPart text))
    (more : text.dropWhile (· != ',') = comma :: rest) (later : Scans rest answer)
    : Scans text answer

theorem firstPart_append (text : List Char)
    : firstPart text ++ text.dropWhile (· != ',') = text :=
  List.takeWhile_append_dropWhile

/-- What the loop stops at is a comma. -/
theorem comma_of_dropWhile {text rest : List Char} {comma : Char}
    (more : text.dropWhile (· != ',') = comma :: rest)
    : comma = ',' := by
  have stops := List.dropWhile_get_zero_not (· != ',') text (by simp [more])
  simpa [more] using stops

/-- The two checks of a turn are the two halves of an id. -/
theorem looksLikeTxidFrom_succ {fuel : Nat} {text : List Char}
    : looksLikeTxidFrom (fuel + 1) text = true
      ↔ IsTxid (firstPart text)
        ∧ ∀ comma rest,
            text.dropWhile (· != ',') = comma :: rest
            → looksLikeTxidFrom fuel rest = true := by
  have digits : (firstPart text).any (fun c => !isHexDigit c) = false
      ↔ ∀ c ∈ firstPart text, isHexDigit c = true := by simp
  rw [looksLikeTxidFrom, ← firstPart]
  unfold IsTxid
  by_cases size : (firstPart text).length = 64
  · cases foreign : (firstPart text).any (fun c => !isHexDigit c) with
    | true => simp [size, foreign, ← digits]
    | false => cases text.dropWhile (· != ',') <;> simp [size, foreign, ← digits]
  · simp [size]

/-- The loop ends before its fuel does, by induction on the fuel: what is left after a comma is
shorter. -/
theorem scans_of_fuel {fuel : Nat} {text : List Char} (enough : text.length < fuel)
    : Scans text (looksLikeTxidFrom fuel text) := by
  induction fuel generalizing text with
  | zero => omega
  | succ fuel ih =>
      have turn := @looksLikeTxidFrom_succ fuel text
      by_cases id : IsTxid (firstPart text)
      · cases left : text.dropWhile (· != ',') with
        | nil =>
            have answer : looksLikeTxidFrom (fuel + 1) text = true :=
              turn.mpr ⟨id, fun _ _ more => by rw [left] at more; cases more⟩
            rw [answer]
            exact .last id left
        | cons comma rest =>
            have parts := congrArg List.length (firstPart_append text)
            rw [left, List.length_append, List.length_cons] at parts
            have answer : looksLikeTxidFrom (fuel + 1) text = looksLikeTxidFrom fuel rest := by
              refine Bool.eq_iff_iff.mpr (turn.trans ⟨fun both => both.2 comma rest left, ?_⟩)
              intro later
              refine ⟨id, fun _ _ more => ?_⟩
              obtain ⟨rfl, rfl⟩ := List.cons.inj (left.symm.trans more)
              exact later
            rw [answer]
            exact .next id left (ih (by omega))
      · have answer : looksLikeTxidFrom (fuel + 1) text = false :=
          Bool.eq_false_iff.mpr fun accepted => id (turn.mp accepted).1
        rw [answer]
        exact .refused id

/-- An id holds no comma. -/
theorem IsTxid.no_comma {id : List Char} (txid : IsTxid id) : ',' ∉ id := by
  intro member
  have isDigit := txid.2 ',' member
  revert isDigit
  decide

/-- What the loop has before it: the part up to the first comma, then the parts after it. -/
theorem splitOn_firstPart (text : List Char)
    : text.splitOn ','
      = firstPart text
        :: match text.dropWhile (· != ',') with
          | [] => []
          | _ :: rest => rest.splitOn ',' := by
  have absent : ',' ∉ firstPart text := by
    intro member
    simpa using List.mem_takeWhile_imp member
  have whole := firstPart_append text
  cases left : text.dropWhile (· != ',') with
  | nil =>
      rw [left, List.append_nil] at whole
      rw [whole] at absent ⊢
      exact List.splitOn_eq_singleton absent
  | cons comma rest =>
      rw [left, comma_of_dropWhile left] at whole
      calc text.splitOn ','
          = (firstPart text ++ ',' :: rest).splitOn ',' := by rw [whole]
        _ = firstPart text :: rest.splitOn ',' := List.splitOn_append_cons_self_of_not_mem absent rest

/-- A run accepts exactly when all parts of the text are ids. Induction on the run. -/
theorem Scans.accepts_iff {text : List Char} {answer : Bool} (run : Scans text answer)
    : answer = true ↔ ∀ id ∈ text.splitOn ',', IsTxid id := by
  induction run with
  | @refused text foreign =>
      rw [splitOn_firstPart]
      simp [foreign]
  | @last text id final =>
      rw [splitOn_firstPart, final]
      simpa using id
  | @next text comma rest answer id more later ih =>
      rw [splitOn_firstPart, more]
      simpa [id] using ih

/-- Every text is run to its end. -/
theorem scans_looksLikeTxid {s : String} (nonempty : s ≠ "") : Scans s.toList (looksLikeTxid s) := by
  rw [looksLikeTxid, if_neg nonempty]
  exact scans_of_fuel (by rw [String.length_toList]; omega)

/-- A nonempty list of ids joined by commas. -/
def JoinsTxids (s : String) : Prop :=
  ∃ ids, ids ≠ [] ∧ (∀ id ∈ ids, IsTxid id) ∧ s.toList = [','].intercalate ids

theorem looksLikeTxid_eq_true {s : String} : looksLikeTxid s = true ↔ JoinsTxids s := by
  constructor
  · intro accepted
    have nonempty : s ≠ "" := by
      rintro rfl
      cases accepted
    exact ⟨s.toList.splitOn ',', List.splitOn_ne_nil ',' _,
      (scans_looksLikeTxid nonempty).accepts_iff.mp accepted, (List.intercalate_splitOn ',').symm⟩
  · rintro ⟨ids, nonempty, each, joined⟩
    have parts : s.toList.splitOn ',' = ids := by
      rw [joined]
      exact List.splitOn_intercalate ',' (fun id member => (each id member).no_comma) nonempty
    have filled : s ≠ "" := by
      rintro rfl
      rw [← parts] at each
      have empty : IsTxid [] := each [] (by simp)
      exact absurd empty.1 (by decide)
    exact (scans_looksLikeTxid filled).accepts_iff.mpr (parts ▸ each)

/-- The texts that look like ids are the nonempty lists of ids joined by commas, and the loop
that tells ends on every text.
-/
theorem looksLikeTxid_iff_joined (s : String)
    : (s ≠ "" → Scans s.toList (looksLikeTxid s))
      ∧ (looksLikeTxid s = true
        ↔ ∃ ids, ids ≠ [] ∧ (∀ id ∈ ids, IsTxid id) ∧ s.toList = [','].intercalate ids) :=
  ⟨scans_looksLikeTxid, looksLikeTxid_eq_true⟩

end MoneroWalletCore.Runtime
