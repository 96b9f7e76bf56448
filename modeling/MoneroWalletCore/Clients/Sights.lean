import MoneroWalletCore.Clients.HandleLock

/-! What a direct call can see that the others leave alone: the wallet and its session while it
holds the handle, the library while it holds it alone, and its own notes. Bodies are reasoned
about in this view.
-/

namespace MoneroWalletCore.Runtime

open Program

variable {Λ : Type} {library : Library Λ}

/-- A thread's own view of the module. -/
structure Sight (Λ : Type) where
  held : Option (Option Wallet × Option Opened)
  library : Option Λ
  notes : List Note

namespace Sight

/-- A session that a thread may note. -/
def Dates (v : Sight Λ) (opened : Option Opened) : Prop := ∀ held ∈ v.held, opened = held.2

def noted (v : Sight Λ) (op : ReadOp) (answer : op.Ans) (opened : Option Opened) : Sight Λ :=
  { v with notes := { op, answer, opened } :: v.notes }

/-- A thread's actions on its view. What a section finds is as `tells` has it. -/
def act (library : Library Λ) (tells : Mem → Option Opened → Prop) (i : Actor)
    : Semantics ReadOp ReadOp.Ans (Sight Λ) :=
  fun v op answer v' =>
    match op, answer with
    | .members, found =>
        ∃ opened, v.Dates opened ∧ (∀ held ∈ v.held, found.wallet = held.1)
          ∧ tells found opened ∧ v' = v.noted .members found opened
    | .handle, found =>
        ∃ opened, v.Dates opened ∧ (∀ held ∈ v.held, found = held.1)
          ∧ v' = v.noted .handle found opened
    | .lock mode, _ =>
        ∃ held l, v' = { v with held := some held, library := if mode = .unique then some l else none }
    | .tryLock, got =>
        if got then ∃ held, v' = { v with held := some held, library := none } else v' = v
    | .unlock _, _ => v'.notes = v.notes
    | .query c, result =>
        ∃ opened l l', v.Dates opened ∧ library l i c result l' ∧ (∀ known ∈ v.library, l = known)
          ∧ v' = { v with library := v.library.map fun _ => l' }.noted (.query c) result opened
    | .socketsTo .., _ => v' = v
    | .record .., _ => True

end Sight

namespace Shared

variable {s s' : Shared Λ} {i : Actor}

def sight (i : Actor) (s : Shared Λ) : Sight Λ where
  held := if s.lock.Holds i then some (s.world.mem.wallet, s.opened) else none
  library := if s.lock.writer = some i then some s.library else none
  notes := s.notes i

/-- The others leave it as it is. -/
theorem Spares.sight (spares : Spares i s s') : s'.sight i = s.sight i := by
  unfold Shared.sight
  rw [spares.notes]
  congr 1
  · by_cases holds : s.lock.Holds i
    · rw [if_pos holds, if_pos (spares.lock.holds.mpr holds), spares.wallet holds,
        spares.opened holds]
    · rw [if_neg holds, if_neg (mt spares.lock.holds.mp holds)]
  · by_cases writes : s.lock.writer = some i
    · rw [if_pos writes, if_pos (spares.lock.writer.mpr writes), spares.library writes]
    · rw [if_neg writes, if_neg (mt spares.lock.writer.mp writes)]

theorem sight_dates : (s.sight i).Dates s.opened := by
  intro held member
  obtain ⟨_, same⟩ := Option.mem_ite_none_right.mp member
  cases same
  rfl

theorem sight_wallet : ∀ held ∈ (s.sight i).held, s.world.mem.wallet = held.1 := by
  intro held member
  obtain ⟨_, same⟩ := Option.mem_ite_none_right.mp member
  cases same
  rfl

theorem sight_library : ∀ known ∈ (s.sight i).library, s.library = known := by
  intro known member
  obtain ⟨_, same⟩ := Option.mem_ite_none_right.mp member
  cases same
  rfl

theorem sight_noted {op : ReadOp} {answer : op.Ans}
    : (s.noted i op answer).sight i = (s.sight i).noted op answer s.opened := by
  simp only [sight, Sight.noted, noted, Function.update_self]
  rfl

/-- A thread's action as it sees it. -/
theorem read_sight {tells : Mem → Option Opened → Prop} {op : ReadOp} {answer : op.Ans}
    (told : tells s.world.mem s.opened) (acts : s.read library i op answer s')
    : Sight.act library tells i (s.sight i) op answer (s'.sight i) := by
  cases op with
  | members =>
      obtain ⟨rfl, rfl⟩ := acts
      exact ⟨s.opened, sight_dates, sight_wallet, told, sight_noted⟩
  | handle =>
      obtain ⟨rfl, rfl⟩ := acts
      exact ⟨s.opened, sight_dates, sight_wallet, sight_noted⟩
  | lock mode =>
      obtain ⟨lock, taken, rfl⟩ := acts
      refine ⟨(s.world.mem.wallet, s.opened), s.library, ?_⟩
      have holds : lock.Holds i := holds_take taken
      cases mode with
      | unique =>
          obtain ⟨_, _, writes, _⟩ := RwLock.tryLock_eq_some.mp taken
          simp only [sight, if_pos holds, if_pos writes, if_true]
      | shared =>
          obtain ⟨_, free, _⟩ := RwLock.tryLockShared_eq_some.mp taken
          have shares : lock.writer ≠ some i := free ▸ nofun
          simp only [sight, if_pos holds, if_neg shares]
          rfl
  | tryLock =>
      obtain ⟨lock, taken, rfl⟩ := acts
      cases answer with
      | true =>
          have taken : LockMode.shared.take? s.lock i = some lock := taken
          have holds : lock.Holds i := holds_take taken
          obtain ⟨_, free, _⟩ := RwLock.tryLockShared_eq_some.mp taken
          have shares : lock.writer ≠ some i := free ▸ nofun
          refine ⟨(s.world.mem.wallet, s.opened), ?_⟩
          simp only [sight, if_pos holds, if_neg shares]
      | false =>
          cases taken
          rfl
  | unlock mode =>
      cases acts
      rfl
  | query c =>
      obtain ⟨after, answered, rfl⟩ := acts
      refine ⟨s.opened, s.library, after, sight_dates, answered, sight_library, ?_⟩
      rw [sight_noted]
      congr 1
      simp only [sight]
      congr 1
      by_cases writes : s.lock.writer = some i
      · simp only [if_pos writes, Option.map_some]
      · simp only [if_neg writes, Option.map_none]
  | socketsTo hostport drop => exact congrArg (Shared.sight i) acts
  | record w connected height => trivial

end Shared

/-- A body is secure by what it does in a thread's own view. -/
theorem Module.secure_of_sight {i : Actor} {p : Reader Json} {s : Shared Λ}
    {tells : Mem → Option Opened → Prop} {normal : Json → Sight Λ → Prop}
    {always : Shared Λ → Prop} {more : Shared Λ → Shared Λ → Prop}
    {ends : Except Exn Json → Shared Λ → Prop}
    (heeds : p.Heeds (Sight.act library tells i) (fun _ _ => True) normal (fun _ _ => True)
      (s.sight i))
    (told : ∀ s, always s → tells s.world.mem s.opened)
    (returns : ∀ answer s, normal answer (Shared.sight i s) → ends (.ok answer) s)
    (throws : ∀ error s, ends (.error error) s)
    : p.Secure (Shared.read library i) always (fun _ s s' => Shared.Spares i s s' ∧ more s s')
        (fun _ _ => True) ends s :=
  Heeds.secure heeds (fun _ _ _ step => step.1.sight)
    (fun s _ _ _ now _ acts => Shared.read_sight (told s now) acts) (fun _ _ _ _ => trivial)
    returns fun error s _ => throws error s

/-! ### The library by itself -/

namespace Shared

variable {s s' : Shared Λ} {i : Actor}

/-- Only a query is the library's. -/
theorem read_library {op : ReadOp} {answer : op.Ans} (acts : s.read library i op answer s')
    : s'.library = s.library
      ∨ ∃ c result, op = .query c ∧ library s.library i c result s'.library := by
  rcases read_cases acts with ⟨_, rfl⟩ | ⟨_, rfl⟩ | ⟨c, result, _, asks, answered, rfl⟩ | ⟨_, _, _, _, rfl⟩
  · exact .inl rfl
  · exact .inl rfl
  · exact .inr ⟨c, result, asks, answered⟩
  · exact .inl rfl

end Shared

namespace Module

variable {rule : Surroundings} {t t' : Module Λ}
variable {rules : Pool.Rules Actor Actor.Op Actor.Ans (fun _ => Exn) Actor.Out (Shared Λ)}

/-- A step leaves the library, or is the query of a thread that has one to make. -/
theorem Refines.library_step (refines : Refines rules rule library) (step : Pool.Step rules t t')
    : t'.state.library = t.state.library
      ∨ ∃ i c result, library t.state.library i c result t'.state.library
        ∧ (t.rest i).head ≠ none := by
  cases step with
  | @call i op next answer s' waits _ acts =>
      rw [refines.act] at acts
      have busy : (t.rest i).head ≠ none := by
        rw [waits]
        exact nofun
      cases i with
      | worker =>
          obtain ⟨_, _, _, _, rfl⟩ := acts
          exact .inl rfl
      | probe =>
          refine (Shared.read_library acts).imp_right ?_
          rintro ⟨c, result, _, answered⟩
          exact ⟨.probe, c, result, answered, busy⟩
      | call n =>
          refine (Shared.read_library acts).imp_right ?_
          rintro ⟨c, result, _, answered⟩
          exact ⟨.call n, c, result, answered, busy⟩
  | @start i p s' starts =>
      rw [refines.starts] at starts
      cases i with
      | worker =>
          obtain ⟨_, _, rfl⟩ := starts
          exact .inl rfl
      | probe =>
          obtain ⟨_, _, rfl⟩ := starts
          exact .inl rfl
      | call n =>
          obtain ⟨_, _, _, rfl⟩ := starts
          exact .inl rfl
  | other stepped =>
      obtain ⟨_, _, rfl⟩ := refines.others _ _ stepped
      exact .inl rfl

/-- A call that was made stays made. -/
theorem Refines.asked_step (refines : Refines rules rule library) (step : Pool.Step rules t t')
    {n : Nat} {request : Request} (asked : t.state.requests n = some request)
    : t'.state.requests n = some request := by
  cases step with
  | @call i op next answer s' waits _ acts =>
      rw [refines.act] at acts
      cases i with
      | worker =>
          obtain ⟨_, _, _, _, rfl⟩ := acts
          exact asked
      | probe => exact (Shared.read_quiet acts).1 ▸ asked
      | call m => exact (Shared.read_quiet acts).1 ▸ asked
  | @start i p s' starts =>
      rw [refines.starts] at starts
      cases i with
      | worker =>
          obtain ⟨_, _, rfl⟩ := starts
          exact asked
      | probe =>
          obtain ⟨_, _, rfl⟩ := starts
          exact asked
      | call m =>
          obtain ⟨first, _, _, rfl⟩ := starts
          have other : n ≠ m := by
            rintro rfl
            cases first.symm.trans asked
          exact (Function.update_of_ne other ..).trans asked
  | other stepped =>
      obtain ⟨_, _, rfl⟩ := refines.others _ _ stepped
      exact asked

/-- Only a call that was made has anything to do. -/
theorem Refines.asked_of_busy (refines : Refines rules rule library) {hasNotify : Bool} {l : Λ}
    {n : Nat} (reach : Pool.Reach rules (start hasNotify l) t)
    (busy : (t.rest (.call n)).head ≠ none)
    : ∃ request, t.state.requests n = some request := by
  cases asked : t.state.requests n with
  | none =>
      rw [(refines.unasked reach asked).1] at busy
      exact absurd rfl busy
  | some request => exact ⟨request, rfl⟩

end Module

end MoneroWalletCore.Runtime
