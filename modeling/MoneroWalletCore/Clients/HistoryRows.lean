import MoneroWalletCore.Clients.Indices
import MoneroWalletCore.Clients.Schedules
import MoneroWalletCore.Clients.Sights

/-! Which rows `history()` reads. A refresh of a history makes its rows anew and drops those of
the refreshes before, and each call refreshes while it only shares the handle.
-/

namespace MoneroWalletCore.Runtime

open Program

/-! ### The library's rows -/

/-- How often each history was refreshed. -/
structure Shelf where
  generation : TxHistory → Nat

namespace Shelf

def refreshed (l : Shelf) (h : TxHistory) : Shelf where
  generation := Function.update l.generation h (l.generation h + 1)

/-- A library that gives the rows of the last refresh, and any other answer. -/
def library : Library Shelf := fun l _ c result l' =>
  match c, result with
  | .historyRefresh h, _ => l' = l.refreshed h
  | .historyTransaction h _, result =>
      l' = l ∧ ∀ row, result = .ok (some row) →
        row.history = h ∧ row.generation = l.generation h
  | _, _ => l' = l

/-- A row that there still is. -/
def Live (l : Shelf) (row : TxInfo) : Prop := row.generation = l.generation row.history

variable {l l' : Shelf} {i : Actor} {c : Query} {result : Except Exn c.Ret}

/-- Only a refresh drops rows, those of its history. -/
theorem library_cases (answered : library l i c result l')
    : l' = l ∨ ∃ h, c = .historyRefresh h ∧ l' = l.refreshed h := by
  cases c with
  | historyRefresh h => exact .inr ⟨h, rfl, answered⟩
  | historyTransaction h index => exact .inl answered.1
  | _ => exact .inl answered

end Shelf

/-! ### A call by itself -/

/-- The row that a note is of. -/
def Note.row (note : Note) : Option TxInfo :=
  match note.op, note.answer with
  | .query (.historyTransaction ..), .ok row => row
  | _, _ => none

/-- The rows that a thread got, the last one first. -/
def rows (notes : List Note) : List TxInfo := notes.filterMap Note.row

def GotRow (notes : List Note) (h : TxHistory) : Prop := ∃ row ∈ rows notes, row.history = h

instance {notes : List Note} {h : TxHistory} : Decidable (GotRow notes h) :=
  inferInstanceAs (Decidable (∃ row ∈ rows notes, row.history = h))

/-- An item is what the accessors of a row were noted to answer. -/
def ItemOf (notes : List Note) (row : TxInfo) (item : Json) : Prop :=
  Runs (fun _ op answer _ => ∃ opened, { op, answer, opened } ∈ notes) (historyRow row) ()
    (.ok item) ()

/-- A thread's own view: the refresh of each history that it has a row of. -/
structure Reading where
  held : Bool
  notes : List Note
  known : TxHistory → Option Nat

namespace Reading

/-- What there is to see in a library. -/
def of (held : Bool) (notes : List Note) (l : Shelf) : Reading where
  held
  notes
  known h := if held = true ∧ GotRow notes h then some (l.generation h) else none

/-- A thread's actions on its view. -/
def act (i : Actor) : Semantics ReadOp ReadOp.Ans Reading := fun v op answer v' =>
  match op, answer with
  | .members, found => ∃ opened l, v = of v.held v.notes l
      ∧ v' = of v.held ({ op := .members, answer := found, opened } :: v.notes) l
  | .handle, found => ∃ opened l, v = of v.held v.notes l
      ∧ v' = of v.held ({ op := .handle, answer := found, opened } :: v.notes) l
  | .lock _, _ => ∃ l, v' = of true v.notes l
  | .tryLock, _ => v'.notes = v.notes
  | .unlock _, _ => v'.notes = v.notes
  | .query c, result => ∃ opened l l', v = of v.held v.notes l ∧ Shelf.library l i c result l'
      ∧ v' = of v.held ({ op := .query c, answer := result, opened } :: v.notes) l'
  | .socketsTo .., _ => v' = v
  | .record .., _ => True

/-- The rows that the thread has are of the refresh that is known. -/
def Current (v : Reading) : Prop :=
  v.held = true ∧ ∀ row ∈ rows v.notes, v.known row.history = some row.generation

/-- A row is only read while there is one. -/
def watch (v : Reading) (op : ReadOp) : Prop :=
  ∀ row field, op = .query (.info row field) → v.known row.history = some row.generation

end Reading

theorem rows_other {note : Note} {notes : List Note} (other : note.row = none)
    : rows (note :: notes) = rows notes := List.filterMap_cons_none other

theorem rows_row {note : Note} {notes : List Note} {row : TxInfo} (got : note.row = some row)
    : rows (note :: notes) = row :: rows notes := List.filterMap_cons_some got

theorem ItemOf.later {notes notes' : List Note} {row : TxInfo} {item : Json}
    (of : ItemOf notes row item) (later : notes <:+ notes')
    : ItemOf notes' row item :=
  of.mono fun _ _ _ _ ⟨opened, noted⟩ => ⟨opened, later.mem noted⟩

namespace Reading

theorem current_of {held : Bool} {notes : List Note} {l : Shelf}
    : (of held notes l).Current ↔ held = true ∧ ∀ row ∈ rows notes, l.Live row := by
  refine and_congr_right fun holds => forall₂_congr fun row member => ?_
  have known : (of held notes l).known row.history = some (l.generation row.history) :=
    if_pos ⟨holds, row, member, rfl⟩
  rw [known, Option.some.injEq]
  exact eq_comm

/-- What is found out of a library that the view is of. -/
theorem current_iff {v : Reading} {l : Shelf} (same : v = of v.held v.notes l)
    : v.Current ↔ v.held = true ∧ ∀ row ∈ rows v.notes, l.Live row := by
  rw [same]
  exact current_of

variable {i : Actor} {v v' : Reading}

/-- A query that drops no rows and gets none. -/
theorem Current.asked {c : Query} {result : Except Exn c.Ret} (current : v.Current)
    (acts : act i v (.query c) result v') (drops : ∀ h, c ≠ .historyRefresh h)
    (gets : ∀ opened, Note.row { op := .query c, answer := result, opened } = none)
    : v'.Current ∧ rows v'.notes = rows v.notes
      ∧ ∃ opened, v'.notes = { op := .query c, answer := result, opened } :: v.notes := by
  obtain ⟨opened, l, l', same, answered, rfl⟩ := acts
  rcases Shelf.library_cases answered with rfl | ⟨h, refresh, _⟩
  · have unchanged : rows ({ op := .query c, answer := result, opened } :: v.notes) = rows v.notes :=
      rows_other (gets opened)
    refine ⟨current_of.mpr ?_, unchanged, opened, rfl⟩
    rw [unchanged]
    exact (current_iff same).mp current
  · exact absurd refresh (drops h)

/-- A row that is got is of the refresh that the others are of. -/
theorem Current.got {h : TxHistory} {index : Nat} {row : TxInfo} (current : v.Current)
    (acts : act i v (.query (.historyTransaction h index)) (.ok (some row)) v')
    : v'.Current ∧ rows v'.notes = row :: rows v.notes ∧ row.history = h
      ∧ v.notes <:+ v'.notes := by
  obtain ⟨opened, l, l', same, ⟨rfl, gives⟩, rfl⟩ := acts
  obtain ⟨rfl, live⟩ := gives row rfl
  obtain ⟨held, each⟩ := (current_iff same).mp current
  let note : Note :=
    { op := .query (.historyTransaction row.history index), answer := .ok (some row), opened }
  have rows_ : rows (note :: v.notes) = row :: rows v.notes := rows_row rfl
  refine ⟨current_of.mpr ⟨held, ?_⟩, rows_, rfl, List.suffix_cons _ _⟩
  rw [rows_]
  exact List.forall_mem_cons.mpr ⟨live, each⟩

end Reading

/-- What a loop over a history leaves: the items are of the rows that it got. -/
structure Listed (h : TxHistory) (v : Reading) (items : List Json) (v' : Reading) : Prop where
  current : v'.Current
  ofHistory : ∀ row ∈ rows v'.notes, row.history = h
  later : v.notes <:+ v'.notes
  listed : ∃ new, rows v'.notes = new.reverse ++ rows v.notes
    ∧ List.Forall₂ (ItemOf v'.notes) new items

theorem Listed.trans {h : TxHistory} {v v' v'' : Reading} {items items' : List Json}
    (first : Listed h v items v') (second : Listed h v' items' v'')
    : Listed h v (items ++ items') v'' := by
  obtain ⟨new, got, each⟩ := first.listed
  obtain ⟨new', got', each'⟩ := second.listed
  refine ⟨second.current, second.ofHistory, first.later.trans second.later, new ++ new', ?_, ?_⟩
  · rw [got', got, List.reverse_append, List.append_assoc]
  · exact List.rel_append (each.imp fun _ _ of => of.later second.later) each'

section Loop

variable {i : Actor} {v : Reading} {h : TxHistory}

end Loop

variable {rule : Surroundings} {hasNotify : Bool} {l : Shelf} {t : Module Shelf}

namespace Shared

variable {s s' : Shared Shelf} {i : Actor}

end Shared

namespace Module

end Module

/-! ### Runs -/

/-- Histories of one row. -/
def Shelf.answer : Answers Shelf := fun l _ c =>
  match c with
  | .historyRefresh h => some (.ok (), l.refreshed h)
  | .historyCount _ => some (.ok (1 : Int), l)
  | .historyTransaction h index =>
      some (.ok (some { history := h, generation := l.generation h, index }), l)
  | c => some (.ok c.plain, l)

theorem Shelf.answer_follow : Shelf.answer.Follow Shelf.library := by
  intro l i c answered replied
  cases c with
  | historyTransaction h index =>
      cases replied
      refine ⟨rfl, fun row same => ?_⟩
      cases same
      exact ⟨rfl, rfl⟩
  | _ =>
      cases replied
      rfl

/-- No history was refreshed. -/
def Shelf.new : Shelf where
  generation _ := 0

namespace Module

end Module

end MoneroWalletCore.Runtime
