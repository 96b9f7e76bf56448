import MoneroWalletCore.Clients.Lifetimes
import MoneroWalletCore.Clients.Scopes
import MoneroWalletCore.Foundation.Endings

/-! The lock of the handle cannot stop the module. A thread takes it only while it does not hold
it, gives it back as it took it, and holds nothing of it between its rounds; so whoever waits waits
for a thread that can go on, and what is under way comes to an end in every order of steps.
-/

namespace MoneroWalletCore.Runtime

open Program Relation

variable {Λ : Type} {α β : Type}

/-! ### Discipline -/

/-- How a thread holds the handle once it has acted. -/
def Op.hold (hold : Option LockMode) : Op → Option LockMode
  | .lock mode => some mode
  | .unlock _ => none
  | _ => hold

def ReadOp.hold (hold : Option LockMode) : (op : ReadOp) → op.Ans → Option LockMode
  | .lock mode, _ => some mode
  | .tryLock, got => if got then some .shared else hold
  | .unlock _, _ => none
  | _, _ => hold

/-- What an action does about the handle. -/
inductive LockUse where
  | leaves
  | asks
  | gives (mode : LockMode)
  deriving DecidableEq, Repr

def Op.use : Op → LockUse
  | .lock _ => .asks
  | .unlock mode => .gives mode
  | _ => .leaves

def ReadOp.use : ReadOp → LockUse
  | .lock _ | .tryLock => .asks
  | .unlock mode => .gives mode
  | _ => .leaves

/-- The handle is asked for by a thread that does not hold it, and given back as it is held. -/
def LockUse.Fair (hold : Option LockMode) : LockUse → Prop
  | .leaves => True
  | .asks => hold = none
  | .gives mode => hold = some mode

namespace Actor

def use : ∀ i : Actor, i.Op → LockUse
  | .worker => Op.use
  | .probe | .call _ => ReadOp.use

def holding : ∀ i : Actor, Semantics i.Op i.Ans (Option LockMode)
  | .worker => fun hold op _ hold' => hold' = op.hold hold
  | .probe | .call _ => fun hold op answer hold' => hold' = op.hold hold answer

/-- A program that is fair from a way of holding the handle on, and leaves it to others. -/
def NeatFrom (i : Actor) (hold : Option LockMode) (p : Program i.Op i.Ans Exn α) : Prop :=
  p.Heeds i.holding (fun hold op => (i.use op).Fair hold) (fun _ hold' => hold' = none)
    (fun _ hold' => hold' = none) hold

end Actor

/-! ### The worker -/

/-- An action that does nothing about the handle. -/
abbrev Op.Lockless (op : Op) : Prop := op.use = .leaves

instance : Assigning Op.Lockless where
  reports := { reads := rfl, resets := rfl, notifies := fun _ _ => rfl, tells := fun _ => rfl }
  libs _ _ := rfl
  resumes _ := rfl
  resolves _ := rfl
  times := rfl
  sleeps _ := rfl
  sockets _ _ := rfl
  registers _ := rfl
  drops _ := rfl
  ticks _ _ := rfl
  labels _ _ := rfl
  states _ := rfl
  publishes _ := rfl
  describes _ _ _ _ _ := rfl
  takes := rfl
  forgets := rfl
  moves _ _ _ := rfl

namespace Worker

/-- A body that begins and ends without the handle. -/
def Neat (p : Worker α) : Prop := Actor.NeatFrom .worker none p

/-- However the handle is held, it stays held so. -/
theorem Stays.holds {p : Worker α} (stays : p.Stays Op.Lockless) (hold : Option LockMode)
    : p.Heeds (Actor.holding .worker) (fun hold op => op.use.Fair hold)
        (fun _ hold' => hold' = hold) (fun _ hold' => hold' = hold) hold := by
  have fair (hold' : Option LockMode) (op : Op) (lockless : op.Lockless) (now : hold' = hold)
      : op.use.Fair hold' := by
    rw [lockless]
    trivial
  have kept (hold' : Option LockMode) (op : Op) (answer : op.Ans) (hold'' : Option LockMode)
      (lockless : op.Lockless) (step : hold'' = op.hold hold') (now : hold' = hold)
      : hold'' = hold := by
    cases op with
    | lock mode => cases lockless
    | unlock mode => cases lockless
    | _ => exact step.trans now
  exact (Within.heeds stays fair kept rfl).mono (fun _ _ both => both.2) fun _ _ both => both.2

theorem Stays.neat {p : Worker α} (stays : p.Stays Op.Lockless) : p.Neat := stays.holds none

theorem Scoped.neat {p : Worker α} (scope : p.Scoped Op.Lockless) : p.Neat := by
  obtain ⟨mode, body, rfl, stays⟩ := scope
  refine ⟨rfl, fun _ hold' taken => ?_⟩
  subst taken
  refine heeds_ensure.mpr ((stays.holds (some mode)).mono ?_ ?_)
  · rintro _ hold' rfl
    exact ⟨rfl, fun _ _ given => given⟩
  · rintro _ hold' rfl
    exact ⟨rfl, fun _ _ given => given⟩

namespace Neat

theorem bind {p : Worker α} {next : α → Worker β} (first : p.Neat) (rest : ∀ value, (next value).Neat)
    : Worker.Neat (p.bind next) := by
  refine heeds_bind.mpr (first.mono (fun value hold free => ?_) fun _ _ free => free)
  subst free
  exact rest value

theorem guarded {p : Worker α} {handler : Exn → Worker α} (block : p.Neat)
    (handles : ∀ error, (handler error).Neat)
    : Worker.Neat (p.tryCatch handler) := by
  refine heeds_tryCatch.mpr (block.mono (fun _ _ free => free) fun error hold free => ?_)
  subst free
  exact handles error

theorem value {value : α} : Worker.Neat (.pure value : Worker α) := rfl

end Neat

end Worker

open Worker

theorem composes_neat : ComposesNamed Op.Lockless (fun _ => True) (fun _ p => p.Neat) where
  stays := Stays.neat
  scope := Scoped.neat
  bind := Neat.bind
  guarded := Neat.guarded
  reads rest := Neat.bind read_inside.neat fun m => rest m trivial
  names _ _ _ _ := ⟨fun _ _ => rfl, fun _ _ => ⟨rfl, rfl⟩⟩

theorem turn_neat : turn.Neat := by
  have changes (p : Json) : (doChangePassword p).Neat :=
    (doChangePassword_scoped fun _ _ => rfl).neat
  have reads : Worker.Stays Op.Lockless (Program.perform Op.dequeue) := ⟨rfl, fun _ => trivial⟩
  refine reads.neat.bind fun front => .guarded ?_ fun _ => .value
  cases front with
  | none => exact composes_neat.tick
  | some front => exact composes_neat.run changes fun _ _ => rfl

/-! ### Direct calls and the probe -/

/-- An action that does nothing about the handle. -/
abbrev ReadOp.Lockless (op : ReadOp) : Prop := op.use = .leaves

namespace Reader

/-- A body that begins and ends without the handle. It does not matter which reader runs it. -/
def Neat (p : Reader α) : Prop := Actor.NeatFrom .probe none p

theorem Calls.holds {p : Reader α} (calls : p.Calls ReadOp.Lockless) (hold : Option LockMode)
    : p.Heeds (Actor.holding .probe) (fun hold op => op.use.Fair hold)
        (fun _ hold' => hold' = hold) (fun _ hold' => hold' = hold) hold := by
  have fair (hold' : Option LockMode) (op : ReadOp) (lockless : op.Lockless) (now : hold' = hold)
      : op.use.Fair hold' := by
    rw [lockless]
    trivial
  have kept (hold' : Option LockMode) (op : ReadOp) (answer : op.Ans) (hold'' : Option LockMode)
      (lockless : op.Lockless) (step : hold'' = op.hold hold' answer) (now : hold' = hold)
      : hold'' = hold := by
    cases op with
    | lock mode => cases lockless
    | tryLock => cases lockless
    | unlock mode => cases lockless
    | _ => exact step.trans now
  exact (Within.heeds calls fair kept rfl).mono (fun _ _ both => both.2) fun _ _ both => both.2

/-- A scope is left by giving the handle back as it was taken. -/
theorem Calls.ensure {mode : LockMode} {p : Reader α} (calls : p.Calls ReadOp.Lockless)
    : Actor.NeatFrom .probe (some mode) (p.ensure (unlock mode)) := by
  refine heeds_ensure.mpr ((calls.holds (some mode)).mono ?_ ?_)
  · rintro _ hold' rfl
    exact ⟨rfl, fun _ _ given => given⟩
  · rintro _ hold' rfl
    exact ⟨rfl, fun _ _ given => given⟩

theorem Calls.locked {mode : LockMode} {body : Reader α} (calls : body.Calls ReadOp.Lockless)
    : (locked mode body).Neat := by
  refine ⟨rfl, fun _ hold' taken => ?_⟩
  subst taken
  exact calls.ensure

theorem Calls.inTime {late : α} {body : Reader α} (calls : body.Calls ReadOp.Lockless)
    : (lockedInTime late body).Neat := by
  refine ⟨rfl, fun got hold' taken => ?_⟩
  subst taken
  cases got with
  | false => exact rfl
  | true => exact calls.ensure

theorem Neat.after {next : Mem → Reader α} (rest : ∀ m, (next m).Neat)
    : Reader.Neat (members.bind next) := by
  refine ⟨trivial, fun m hold same => ?_⟩
  subst same
  exact rest m

theorem Neat.guarded {p : Reader α} {handler : Exn → Reader α} (block : p.Neat)
    (handles : ∀ error, (handler error).Neat)
    : Reader.Neat (p.tryCatch handler) := by
  refine heeds_tryCatch.mpr (Heeds.mono block (fun _ _ free => free) fun error hold free => ?_)
  subst free
  exact handles error

end Reader

instance : Visits ReadOp.Lockless where
  members := rfl
  handle := rfl
  sockets _ _ := rfl
  records _ _ _ := rfl
  queries _ _ := rfl

open Reader

theorem reveal_neat {password : String} {body : Wallet → Reader Json}
    (calls : ∀ w, (body w).Calls ReadOp.Lockless)
    : (reveal password body).Neat := by
  have checks : (checkPassword password).Calls ReadOp.Lockless := ⟨rfl, fun _ => calls_query rfl⟩
  refine Calls.locked (handle_visits fun w => checks.bind fun right => ?_)
  split
  · trivial
  · exact calls w

theorem serves_neat : Serves ReadOp.Lockless (fun _ p => p.Neat) where
  locked := Calls.locked
  inTime := Calls.inTime
  after := Neat.after
  guarded := Neat.guarded
  value := rfl
  reveals := reveal_neat

/-! ### The threads together -/

/-- Surroundings that answer whatever they are asked. -/
def Surroundings.Answers (rule : Surroundings) : Prop :=
  ∀ history call members, ∃ answer, rule history (.asked call answer members)

/-- A library that comes back from every call, or throws. -/
def Library.Answers (library : Library Λ) : Prop :=
  ∀ l i c, ∃ result after, library l i c result after

namespace LockMode

variable {l l' : RwLock Actor} {i : Actor} {mode : LockMode}

theorem held_give (held : held? l i = some mode) : held? (mode.give l i) i = none := by
  cases mode with
  | unique =>
      have writes := writes_of_held held
      have none_ : l.readers = ∅ := l.exclusive (by rw [writes]; exact Option.some_ne_none _)
      simp [held?, give, RwLock.unlock, writes, none_]
  | shared =>
      unfold held? at held
      split at held
      next => cases held
      next idle => simp [held?, give, RwLock.unlockShared, idle]

/-- A lock that is asked for is free, or held by a thread. -/
theorem take_or_held (l : RwLock Actor) (i : Actor) (mode : LockMode)
    : (∃ l', mode.take? l i = some l') ∨ ∃ j, held? l j ≠ none := by
  cases writer : l.writer with
  | some j => exact .inr ⟨j, by simp [held?, writer]⟩
  | none =>
      by_cases readers : l.readers = ∅
      · left
        cases mode with
        | unique => exact ⟨_, dif_pos ⟨writer, readers⟩⟩
        | shared => exact ⟨_, dif_pos writer⟩
      · obtain ⟨j, reads⟩ := Finset.nonempty_iff_ne_empty.mpr readers
        exact .inr ⟨j, by simp [held?, writer, reads]⟩

/-- A lock that nobody holds. -/
theorem free_of_held (none_ : ∀ i, held? l i = none) : l = .free := by
  rcases take_or_held l .worker .unique with ⟨l', taken⟩ | ⟨j, held⟩
  · obtain ⟨writer, readers, _⟩ := RwLock.tryLock_eq_some.mp taken
    obtain ⟨w, r, exclusive⟩ := l
    cases writer
    cases readers
    rfl
  · exact absurd (none_ j) held

end LockMode

namespace Shared

variable {i j : Actor} {s s' : Shared Λ} {rule : Surroundings} {library : Library Λ}

theorem work_lock {op : Op} {answer : op.Ans} (other : j ≠ .worker)
    (acts : s.work rule op answer s')
    : s.lock.SameFor j s'.lock := by
  obtain ⟨world, lock, _, locked, rfl⟩ := acts
  cases op with
  | lock mode => exact sameFor_take other locked
  | unlock mode =>
      cases locked
      exact sameFor_give other
  | _ =>
      cases locked
      exact .refl

theorem work_hold {op : Op} {answer : op.Ans}
    (fair : op.use.Fair (LockMode.held? s.lock .worker)) (acts : s.work rule op answer s')
    : LockMode.held? s'.lock .worker = op.hold (LockMode.held? s.lock .worker) := by
  obtain ⟨world, lock, _, locked, rfl⟩ := acts
  cases op with
  | lock mode => exact LockMode.held_take locked
  | unlock mode =>
      cases locked
      exact LockMode.held_give fair
  | _ =>
      cases locked
      rfl

theorem read_hold {op : ReadOp} {answer : op.Ans} (fair : op.use.Fair (LockMode.held? s.lock i))
    (acts : s.read library i op answer s')
    : LockMode.held? s'.lock i = op.hold (LockMode.held? s.lock i) answer := by
  cases op with
  | members =>
      obtain ⟨_, rfl⟩ := acts
      rfl
  | handle =>
      obtain ⟨_, rfl⟩ := acts
      rfl
  | lock mode =>
      obtain ⟨lock, taken, rfl⟩ := acts
      exact LockMode.held_take taken
  | tryLock =>
      obtain ⟨lock, taken, rfl⟩ := acts
      cases answer with
      | true =>
          have shared : LockMode.shared.take? s.lock i = some lock := taken
          exact LockMode.held_take shared
      | false =>
          cases taken
          rfl
  | unlock mode =>
      cases acts
      exact LockMode.held_give fair
  | query c =>
      obtain ⟨_, _, rfl⟩ := acts
      rfl
  | socketsTo hostport drop =>
      cases acts
      rfl
  | record w connected height =>
      cases acts
      rfl

theorem work_goes (answers : rule.Answers) (s : Shared Λ) (op : Op)
    : (∃ answer s', s.work rule op answer s')
      ∨ op.use = .asks ∧ ∃ j, LockMode.held? s.lock j ≠ none := by
  cases op with
  | lock mode =>
      rcases LockMode.take_or_held s.lock .worker mode with ⟨l, taken⟩ | held
      · exact .inl ⟨(), _, _, l, rfl, taken, rfl⟩
      · exact .inr ⟨rfl, held⟩
  | ask call =>
      obtain ⟨answer, allowed⟩ := answers s.world.history call s.world.mem.own
      exact .inl ⟨answer, _, _, _, ⟨allowed, rfl⟩, rfl, rfl⟩
  | update f => exact .inl ⟨_, _, _, _, ⟨rfl, rfl⟩, rfl, rfl⟩
  | unlock mode => exact .inl ⟨(), _, _, _, rfl, rfl, rfl⟩
  | dequeue => exact .inl ⟨_, _, _, _, ⟨rfl, rfl⟩, rfl, rfl⟩
  | settle ptr out => exact .inl ⟨_, _, _, _, ⟨rfl, rfl⟩, rfl, rfl⟩

theorem read_goes (replies : library.Answers) (s : Shared Λ) (op : ReadOp)
    : (∃ answer s', s.read library i op answer s')
      ∨ op.use = .asks ∧ ∃ j, LockMode.held? s.lock j ≠ none := by
  cases op with
  | lock mode =>
      rcases LockMode.take_or_held s.lock i mode with ⟨l, taken⟩ | held
      · exact .inl ⟨(), _, l, taken, rfl⟩
      · exact .inr ⟨rfl, held⟩
  | query c =>
      obtain ⟨result, after, replied⟩ := replies s.library i c
      exact .inl ⟨result, _, after, replied, rfl⟩
  | tryLock => exact .inl ⟨false, _, s.lock, rfl, rfl⟩
  | members => exact .inl ⟨_, _, rfl, rfl⟩
  | handle => exact .inl ⟨_, _, rfl, rfl⟩
  | unlock mode => exact .inl ⟨(), _, rfl⟩
  | socketsTo hostport drop => exact .inl ⟨0, _, rfl⟩
  | record w connected height => exact .inl ⟨(), _, rfl⟩

end Shared

namespace Module

open Shared

variable {rule : Surroundings} {library : Library Λ} {hasNotify : Bool} {l : Λ}
variable {t t' : Module Λ} {i j : Actor}

/-- What an action does to the lock, and that it leaves the requests. -/
theorem act_hold {s s' : Shared Λ} {op : i.Op} {answer : i.Ans op}
    (fair : (i.use op).Fair (LockMode.held? s.lock i)) (acts : act rule library i s op answer s')
    : i.holding (LockMode.held? s.lock i) op answer (LockMode.held? s'.lock i)
      ∧ (∀ j, j ≠ i → LockMode.held? s'.lock j = LockMode.held? s.lock j)
      ∧ s'.requests = s.requests := by
  cases i with
  | worker =>
      refine ⟨work_hold fair acts, fun j other => LockMode.held_same (work_lock other acts), ?_⟩
      obtain ⟨_, _, _, _, rfl⟩ := acts
      rfl
  | probe =>
      exact ⟨read_hold fair acts, fun j other => LockMode.held_same (read_lock other acts),
        (read_quiet acts).1.symm⟩
  | call n =>
      exact ⟨read_hold fair acts, fun j other => LockMode.held_same (read_lock other acts),
        (read_quiet acts).1.symm⟩

/-- An action can be taken, unless it asks for a handle that is held. -/
theorem act_goes (answers : rule.Answers) (replies : library.Answers) (s : Shared Λ) (op : i.Op)
    : (∃ answer s', act rule library i s op answer s')
      ∨ i.use op = .asks ∧ ∃ j, LockMode.held? s.lock j ≠ none := by
  cases i with
  | worker => exact work_goes answers s op
  | probe => exact read_goes replies s op
  | call n => exact read_goes replies s op

/-- Every thread is fair from here on, and finitely many are in the middle of a round. -/
structure Orderly (t : Module Λ) : Prop where
  neat : ∀ i : Actor, i.NeatFrom (LockMode.held? t.state.lock i) (t.rest i)
  idle : ∀ n, t.state.requests n = none → (t.rest (.call n)).head = none
  few : {n | t.state.requests n ≠ none}.Finite

namespace Orderly

/-- A thread between its rounds holds nothing. -/
theorem free (orderly : Orderly t) (rests : (t.rest i).head = none)
    : LockMode.held? t.state.lock i = none := by
  have neat := orderly.neat i
  unfold Actor.NeatFrom at neat
  cases rest : t.rest i with
  | call op next =>
      rw [rest] at rests
      cases rests
  | pure value =>
      rw [rest] at neat
      exact neat
  | throw error =>
      rw [rest] at neat
      exact neat

/-- What a thread is about to do is fair. -/
theorem fair (orderly : Orderly t) {op : i.Op} (waits : (t.rest i).head = some op)
    : (i.use op).Fair (LockMode.held? t.state.lock i) := by
  have neat := orderly.neat i
  unfold Actor.NeatFrom at neat
  cases rest : t.rest i with
  | call op' next =>
      rw [rest] at neat waits
      cases waits
      exact neat.1
  | pure value =>
      rw [rest] at waits
      cases waits
  | throw error =>
      rw [rest] at waits
      cases waits

/-- A round begins without the handle. -/
theorem start (orderly : Orderly t) {p : Program i.Op i.Ans Exn i.Out} {s' : Shared Λ}
    (begins : starts i (t.rest i) p t.state s')
    : i.NeatFrom (LockMode.held? s'.lock i) p ∧ s'.lock = t.state.lock
      ∧ (∀ n, s'.requests n = none → t.state.requests n = none ∧ i ≠ .call n)
      ∧ {n | s'.requests n ≠ none}.Finite := by
  cases i with
  | worker =>
      obtain ⟨rests, rfl, rfl⟩ := begins
      refine ⟨?_, rfl, fun n none_ => ⟨none_, by simp⟩, orderly.few⟩
      rw [orderly.free (by rw [rests]; rfl)]
      exact turn_neat
  | probe =>
      obtain ⟨rests, rfl, rfl⟩ := begins
      refine ⟨?_, rfl, fun n none_ => ⟨none_, by simp⟩, orderly.few⟩
      rw [orderly.free (by rw [rests]; rfl)]
      exact serves_neat.probeRound
  | call n =>
      obtain ⟨unasked, request, rfl, rfl⟩ := begins
      refine ⟨?_, rfl, fun m none_ => ?_, ?_⟩
      · change (Actor.call n).NeatFrom (LockMode.held? t.state.lock (.call n)) request.body
        rw [orderly.free (orderly.idle n unasked)]
        exact serves_neat.body request
      · change Function.update t.state.requests n (some request) m = none at none_
        by_cases same : m = n
        · subst same
          rw [Function.update_self] at none_
          cases none_
        · rw [Function.update_of_ne same] at none_
          exact ⟨none_, fun same' => same (Actor.call.inj same').symm⟩
      · refine (orderly.few.insert n).subset fun m asked => ?_
        by_cases same : m = n
        · exact .inl same
        · change Function.update t.state.requests n (some request) m ≠ none at asked
          rw [Function.update_of_ne same] at asked
          exact .inr asked

theorem step (orderly : Orderly t) (step : Pool.Step (rules rule library) t t') : Orderly t' := by
  cases step with
  | @call i op next answer s' waits may acts =>
      have here := orderly.neat i
      unfold Actor.NeatFrom at here
      rw [waits] at here
      obtain ⟨holds, others, requests⟩ := act_hold here.1 acts
      refine ⟨fun j => ?_, fun n none_ => ?_, ?_⟩
      · by_cases same : j = i
        · subst same
          rw [Pool.resume_same]
          exact here.2 answer _ holds
        · rw [Pool.resume_other same, Pool.resume_state, others j same]
          exact orderly.neat j
      · have unasked : t.state.requests n = none := requests ▸ none_
        have other : Actor.call n ≠ i := by
          rintro rfl
          have rests := orderly.idle n unasked
          rw [waits] at rests
          cases rests
        rw [Pool.resume_other other]
        exact orderly.idle n unasked
      · rw [Pool.resume_state, requests]
        exact orderly.few
  | @start i p s' begins =>
      obtain ⟨here, lock, unasked, few⟩ := orderly.start begins
      refine ⟨fun j => ?_, fun n none_ => ?_, few⟩
      · by_cases same : j = i
        · subst same
          rw [Pool.resume_same]
          exact here
        · rw [Pool.resume_other same, Pool.resume_state, lock]
          exact orderly.neat j
      · obtain ⟨before, other⟩ := unasked n none_
        rw [Pool.resume_other other.symm]
        exact orderly.idle n before
  | other step =>
      obtain ⟨world, _, rfl⟩ := step
      exact ⟨orderly.neat, orderly.idle, orderly.few⟩

/-- Whoever waits waits for a thread that can go on. -/
theorem goes (orderly : Orderly t) (answers : rule.Answers) (replies : library.Answers)
    {op : i.Op} (waits : (t.rest i).head = some op)
    : ∃ t', Pool.Goes (rules rule library) t t' := by
  have goOn {j : Actor} {op : j.Op} (waits : (t.rest j).head = some op)
      (acts : ∃ answer s', act rule library j t.state op answer s')
      : ∃ t', Pool.Goes (rules rule library) t t' := by
    obtain ⟨answer, s', acts⟩ := acts
    obtain ⟨next, rest⟩ := call_of_head waits
    exact ⟨_, .call rest trivial acts⟩
  rcases act_goes answers replies t.state op with acts | ⟨_, j, held⟩
  · exact goOn waits acts
  · obtain ⟨op', waits'⟩ := Option.ne_none_iff_exists'.mp fun rests => held (orderly.free rests)
    rcases act_goes answers replies t.state op' with acts | ⟨asks, _⟩
    · exact goOn waits' acts
    · have fair := orderly.fair waits'
      rw [asks] at fair
      exact absurd fair held

/-- Between the rounds the handle is free. -/
theorem lock_free (orderly : Orderly t) (rests : ∀ i, (t.rest i).head = none)
    : t.state.lock = .free :=
  LockMode.free_of_held fun i => orderly.free (rests i)

/-- The threads that may be in the middle of a round. -/
theorem restsBut (orderly : Orderly t) : ∃ threads, t.RestsBut threads := by
  refine ⟨insert .worker (insert .probe (orderly.few.toFinset.image .call)), fun i outside => ?_⟩
  cases i with
  | worker => simp at outside
  | probe => simp at outside
  | call n => exact orderly.idle n (by simpa using outside)

end Orderly

/-- The threads are orderly in every run. Induction on the steps. -/
theorem orderly_of_reach (reach : Pool.Reach (rules rule library) (start hasNotify l) t)
    : Orderly t := by
  induction reach with
  | refl =>
      refine ⟨fun i => ?_, fun _ _ => rfl, by simp [start]⟩
      cases i <;> rfl
  | tail _ step ih => exact ih.step step

/-- In every run a thread asks for the handle only while it holds nothing of it, gives it back as
it holds it, and holds nothing of it between its rounds. -/
theorem handle_is_given_back (reach : Pool.Reach (rules rule library) (start hasNotify l) t)
    (i : Actor)
    : (∀ op, (t.rest i).head = some op → (i.use op).Fair (LockMode.held? t.state.lock i))
      ∧ ((t.rest i).head = none → LockMode.held? t.state.lock i = none) :=
  ⟨fun _ waits => (orderly_of_reach reach).fair waits, (orderly_of_reach reach).free⟩

/-- The client has added its subaddress, and is about to give the handle back. -/
def givingBack : Module Unit := announcing.play goodScript anyAnswers [.run (.call 0) 4]

theorem givingBack_reach
    : Pool.Reach (rules LibraryReturns owningLibrary) (start true ()) givingBack := by
  have plays : Plays _ goodScript anyAnswers :=
    plays_rules Script.succeeding_returns anyAnswers_follow
  exact plays.reach announcing_reach _

theorem handle_is_given_back_givingBack
    : LockMode.held? givingBack.state.lock (.call 0) = some .unique :=
  (handle_is_given_back givingBack_reach (.call 0)).1 (.unlock .unique) rfl

/-- Once no round is begun any more, those under way come to an end in every order of steps,
whatever the host does in between, and until then some thread can go on; then nobody holds the
handle. -/
theorem rounds_come_to_an_end (answers : rule.Answers) (replies : library.Answers)
    (reach : Pool.Reach (rules rule library) (start hasNotify l) t)
    : Acc (fun t' t => Pool.GoesOn (rules rule library) t t') t
      ∧ ∀ t', ReflTransGen (Pool.GoesOn (rules rule library)) t t' →
          (∃ t'', Pool.Goes (rules rule library) t' t'')
            ∨ (∀ i, (t'.rest i).head = none) ∧ t'.state.lock = .free := by
  obtain ⟨threads, rests⟩ := (orderly_of_reach reach).restsBut
  refine ⟨rests.ends, fun t' goes => ?_⟩
  have orderly := orderly_of_reach (reach.goOn goes)
  by_cases rests' : ∀ i, (t'.rest i).head = none
  · exact .inr ⟨rests', orderly.lock_free rests'⟩
  · push Not at rests'
    obtain ⟨i, waits⟩ := rests'
    obtain ⟨op, waits⟩ := Option.ne_none_iff_exists'.mp waits
    exact .inl (orderly.goes answers replies waits)

theorem rounds_come_to_an_end_announcing
    : Acc (fun t' t => Pool.GoesOn (rules LibraryReturns owningLibrary) t t') announcing
      ∧ ∃ t, Pool.Goes (rules LibraryReturns owningLibrary) announcing t := by
  have answers : Surroundings.Answers LibraryReturns := fun h call m =>
    ⟨goodScript h call, Script.succeeding_returns h call m⟩
  have replies : owningLibrary.Answers := fun l i c =>
    ⟨.ok c.plain, (), anyAnswers_follow l i c (.ok c.plain, ()) rfl⟩
  obtain ⟨ends, goes⟩ := rounds_come_to_an_end answers replies announcing_reach
  refine ⟨ends, (goes announcing .refl).resolve_right fun rests => ?_⟩
  exact Option.some_ne_none _ (announcing_worker.symm.trans (rests.1 .worker))

end Module

end MoneroWalletCore.Runtime
