import Mathlib.Data.Finset.Basic

/-! A lock that one thread may hold alone, or any number of threads together.
-/

/-- Who holds the lock. A writer shares it with nobody. -/
structure RwLock (ι : Type) where
  writer : Option ι
  readers : Finset ι
  exclusive : writer ≠ none → readers = ∅

namespace RwLock

variable {ι : Type} {l l' : RwLock ι} {i j : ι}

/-- Nobody holds it. -/
def free : RwLock ι := { writer := none, readers := ∅, exclusive := fun held => absurd rfl held }

def Holds (l : RwLock ι) (i : ι) : Prop := l.writer = some i ∨ i ∈ l.readers

/-- A writer is the only holder. -/
theorem Holds.eq_writer (holds : l.Holds j) (writes : l.writer = some i) : j = i := by
  rcases holds with held | reads
  · exact Option.some.inj (held.symm.trans writes)
  · have none := l.exclusive fun free => nomatch free.symm.trans writes
    rw [none] at reads
    exact absurd reads (Finset.notMem_empty j)

/-- A reader keeps writers out. -/
theorem writer_of_reads (reads : j ∈ l.readers) : l.writer = none := by
  by_contra held
  rw [l.exclusive held] at reads
  exact Finset.notMem_empty j reads

variable [DecidableEq ι]

/-- Taken alone, by a thread that finds it free. -/
def tryLock (l : RwLock ι) (i : ι) : Option (RwLock ι) :=
  if idle : l.writer = none ∧ l.readers = ∅ then
    some { writer := some i, readers := l.readers, exclusive := fun _ => idle.2 }
  else
    none

/-- Shared, by a thread that finds no writer. -/
def tryLockShared (l : RwLock ι) (i : ι) : Option (RwLock ι) :=
  if idle : l.writer = none then
    some { writer := l.writer, readers := insert i l.readers, exclusive := fun held => absurd idle held }
  else
    none

/-- A thread gives back what it holds alone. -/
def unlock (l : RwLock ι) (i : ι) : RwLock ι :=
  {
    writer := if l.writer = some i then none else l.writer
    readers := l.readers
    exclusive := by
      intro held
      split at held
      · exact absurd rfl held
      · exact l.exclusive held
  }

/-- A thread gives back its share. -/
def unlockShared (l : RwLock ι) (i : ι) : RwLock ι :=
  {
    writer := l.writer
    readers := l.readers.erase i
    exclusive := fun held => by rw [l.exclusive held, Finset.erase_empty]
  }

theorem tryLock_eq_some
    : l.tryLock i = some l'
      ↔ l.writer = none ∧ l.readers = ∅ ∧ l'.writer = some i ∧ l'.readers = ∅ := by
  unfold tryLock
  obtain ⟨writer', readers', exclusive'⟩ := l'
  split
  next idle =>
    simp only [Option.some.injEq, mk.injEq, idle.1, idle.2, true_and]
    constructor
    · exact fun same => ⟨same.1.symm, same.2.symm⟩
    · exact fun same => ⟨same.1.symm, same.2.symm⟩
  next busy =>
    constructor
    · exact fun none => nomatch none
    · exact fun idle => absurd ⟨idle.1, idle.2.1⟩ busy

theorem tryLockShared_eq_some
    : l.tryLockShared i = some l'
      ↔ l.writer = none ∧ l'.writer = none ∧ l'.readers = insert i l.readers := by
  unfold tryLockShared
  obtain ⟨writer', readers', exclusive'⟩ := l'
  split
  next idle =>
    simp only [Option.some.injEq, mk.injEq, idle, true_and]
    constructor
    · exact fun same => ⟨same.1.symm, same.2.symm⟩
    · exact fun same => ⟨same.1.symm, same.2.symm⟩
  next busy =>
    constructor
    · exact fun none => nomatch none
    · exact fun idle => absurd idle.1 busy

/-- What one thread does to the lock leaves what another holds of it. -/
structure SameFor (j : ι) (l l' : RwLock ι) : Prop where
  writer : l'.writer = some j ↔ l.writer = some j
  readers : j ∈ l'.readers ↔ j ∈ l.readers

omit [DecidableEq ι] in
theorem SameFor.refl : SameFor j l l := ⟨Iff.rfl, Iff.rfl⟩

omit [DecidableEq ι] in
theorem SameFor.trans {l'' : RwLock ι} (first : SameFor j l l') (second : SameFor j l' l'')
    : SameFor j l l'' :=
  ⟨second.writer.trans first.writer, second.readers.trans first.readers⟩

omit [DecidableEq ι] in
theorem SameFor.holds (same : SameFor j l l') : l'.Holds j ↔ l.Holds j :=
  or_congr same.writer same.readers

theorem sameFor_tryLock (other : j ≠ i) (taken : l.tryLock i = some l') : SameFor j l l' := by
  obtain ⟨writer, readers, writer', readers'⟩ := tryLock_eq_some.mp taken
  refine ⟨?_, by rw [readers, readers']⟩
  rw [writer, writer', Option.some.injEq]
  exact iff_of_false other.symm nofun

theorem sameFor_tryLockShared (other : j ≠ i) (taken : l.tryLockShared i = some l')
    : SameFor j l l' := by
  obtain ⟨writer, writer', readers'⟩ := tryLockShared_eq_some.mp taken
  refine ⟨by rw [writer, writer'], ?_⟩
  rw [readers', Finset.mem_insert]
  exact or_iff_right other

theorem sameFor_unlock (other : j ≠ i) : SameFor j l (l.unlock i) := by
  refine ⟨?_, Iff.rfl⟩
  unfold unlock
  dsimp only
  split
  next held =>
    rw [held, Option.some.injEq]
    exact iff_of_false nofun other.symm
  next => rfl

theorem sameFor_unlockShared (other : j ≠ i) : SameFor j l (l.unlockShared i) :=
  ⟨Iff.rfl, (Finset.mem_erase.trans (and_iff_right other))⟩

end RwLock
