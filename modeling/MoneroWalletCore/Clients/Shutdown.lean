import MoneroWalletCore.Clients.Lifetimes
import MoneroWalletCore.Tickets.Filing

/-! The end of the module. `shutdown()` stops the worker and the probe, waits for both, and then
stores and closes the wallet that is still in place, as the worker would. Direct calls go on all
the while, and it may be called more than once.
-/

namespace MoneroWalletCore.Runtime

variable {Λ : Type}

/-- The last section of `shutdown()`. -/
def closeDown : Worker Unit :=
  Worker.locked .unique do
    let m ← Worker.read
    match m.wallet with
    | none => pure ()
    | some w => do
        let _ ← Worker.lib (.store w "")
        let _ ← Worker.lib (.closeWallet w true)
        let _ ← Worker.update fun m => { m with wallet := none }
        pure ()

open Program Relation

/-- How far a call of `shutdown()` is. The first one waits for the threads and closes; a later one
returns at once. -/
inductive Stopping where
  | joining
  | closing
  | closed
  | refused
  deriving DecidableEq, Repr

/-- The threads with `m_stop`, which of them have left their loops, and the calls of `shutdown()`. -/
structure Service (Λ : Type) where
  threads : Module Λ
  stop : Bool := false
  workerLeft : Bool := false
  probeLeft : Bool := false
  callers : Nat → Option Stopping := fun _ => none

/-- The worker is at the top of its loop. -/
def Module.Loops (t : Module Λ) : Prop := t.rest .worker = turn ∨ t.rest .worker = .pure ()

namespace Service

/-- Once stopped no job is taken off the queue. -/
def May (s : Service Λ) : ∀ i : Actor, i.Op → Prop
  | .worker => fun op => op = .dequeue → s.stop = false
  | .probe | .call _ => fun _ => True

/-- Nor does the worker or the probe go round again. -/
def Goes (s : Service Λ) : Actor → Prop
  | .worker | .probe => s.stop = false
  | .call _ => True

def resume (s : Service Λ) (i : Actor) (p : Program i.Op i.Ans Exn i.Out) (state : Shared Λ)
    : Service Λ :=
  { s with threads := s.threads.resume i p state }

def at_ (s : Service Λ) (n : Nat) (stage : Stopping) : Service Λ :=
  { s with callers := Function.update s.callers n (some stage) }

inductive Step (rule : Surroundings) (library : Library Λ) : Service Λ → Service Λ → Prop
  | call {s : Service Λ} {i : Actor} {op : i.Op} {next answer state}
    (waits : s.threads.rest i = .call op next) (may : s.May i op)
    (acts : Module.act rule library i s.threads.state op answer state)
    : Step rule library s (s.resume i (next answer) state)
  | start {s : Service Λ} {i : Actor} {p state} (goes : s.Goes i)
    (starts : Module.starts i (s.threads.rest i) p s.threads.state state)
    : Step rule library s (s.resume i p state)
  | host {s : Service Λ} {state} (hosted : s.threads.state.host state)
    : Step rule library s { s with threads := { s.threads with state } }
  | stops {s : Service Λ} {n : Nat} (first : s.callers n = none) (goes : s.stop = false)
    : Step rule library s { s.at_ n .joining with stop := true }
  | refuses {s : Service Λ} {n : Nat} (first : s.callers n = none) (stopped : s.stop = true)
    : Step rule library s (s.at_ n .refused)
  | workerLeaves {s : Service Λ} (stopped : s.stop = true) (loops : s.threads.Loops)
    : Step rule library s { s with workerLeft := true }
  | probeLeaves {s : Service Λ} (stopped : s.stop = true) (loops : s.threads.rest .probe = .pure ())
    : Step rule library s { s with probeLeft := true }
  /-- Both threads are joined. The worker's place is free from here on. -/
  | closes {s : Service Λ} {n : Nat} (joining : s.callers n = some .joining)
    (worker : s.workerLeft = true) (probe : s.probeLeft = true)
    : Step rule library s ((s.at_ n .closing).resume .worker closeDown s.threads.state)
  | returns {s : Service Λ} {n : Nat} (closing : s.callers n = some .closing)
    (returned : s.threads.rest .worker = .pure ())
    : Step rule library s (s.at_ n .closed)

/-- The service at each moment of a run. -/
def Reach (rule : Surroundings) (library : Library Λ) (hasNotify : Bool) (l : Λ) (s : Service Λ)
    : Prop :=
  ReflTransGen (Step rule library) { threads := Module.start hasNotify l } s

end Service

/-! ### The last section -/

/-- The wallet was stored and closed, if one was in place, and nothing else was asked for. -/
def History.StoredAndClosed (held : Option Wallet) (older newer : History) : Prop :=
  match held with
  | none => newer = older
  | some w =>
      ∃ stored closed m m', newer
        = .asked (.lib (.closeWallet w true)) (.ok closed) m'
          :: .asked (.lib (.store w "")) (.ok stored) m :: older

/-- The handle, what was asked for, and whether the handle is held alone. -/
structure LastView where
  held : Option Wallet
  history : History
  alone : Bool

namespace LastView

def act : Semantics Op Op.Ans LastView := fun v op answer v' =>
  match op, answer with
  | .update f, m => m.wallet = v.held ∧ v' = { v with held := (f m).wallet }
  | .lock .unique, _ => v' = { v with alone := true }
  | .lock .shared, _ | .unlock _, _ => ∃ alone, v' = { v with alone }
  | .ask c, answer => ∃ m, v' = { v with history := .asked c answer m :: v.history }
  | .dequeue, front => v' = { v with history := beganBy front ++ v.history }
  | .settle ptr out, state => v' = { v with history := .settled ptr out state :: v.history }

/-- A call is made alone, on an object that lives. -/
def guard (v : LastView) (op : Op) : Prop :=
  ∀ c ∈ op.lib?, v.alone = true ∧ ∀ o ∈ c.on, ∃ w, (objects v.history).owner o = some w

theorem closeDown_heeds {v : LastView}
    (lives : ∀ w, v.held = some w → (objects v.history).owner (.wallet w) = some w)
    : closeDown.Heeds act guard
        (fun _ v' => v'.held = none ∧ History.StoredAndClosed v.held v.history v'.history)
        (fun _ _ => True) v := by
  refine ⟨fun _ none => (by cases none), fun _ v₁ taken => ?_⟩
  cases taken
  refine ⟨fun _ none => (by cases none), fun m v₂ read => ?_⟩
  obtain ⟨wallet, rfl⟩ := read
  have gives (v' : LastView) (closed : v'.held = none)
      (stored : History.StoredAndClosed v.held v.history v'.history)
      : ((Worker.unlock .unique).bind fun _ => Program.pure ()).Heeds act guard
          (fun _ v' => v'.held = none ∧ History.StoredAndClosed v.held v.history v'.history)
          (fun _ _ => True) v' := by
    refine ⟨fun _ none => (by cases none), fun _ v'' left => ?_⟩
    obtain ⟨alone, rfl⟩ := left
    exact ⟨closed, stored⟩
  have thrown (error : Exn) (v' : LastView)
      : ((Worker.unlock .unique).bind fun _ => (Program.throw error : Worker Unit)).Heeds act guard
          (fun _ v' => v'.held = none ∧ History.StoredAndClosed v.held v.history v'.history)
          (fun _ _ => True) v' :=
    ⟨fun _ none => (by cases none), fun _ _ _ => trivial⟩
  change (Program.ensure (match m.wallet with
    | none => Program.pure ()
    | some w => _) _).Heeds act guard _ _ _
  cases found : m.wallet with
  | none =>
      have closed : v.held = none := wallet.symm.trans found
      refine gives _ found ?_
      rw [closed]
      rfl
  | some w =>
      have held : v.held = some w := wallet.symm.trans found
      have alive := lives w held
      refine ⟨fun c same => ⟨rfl, fun o on => ?_⟩, fun answer v₃ asked => ?_⟩
      · cases same
        cases on
        exact ⟨w, alive⟩
      · obtain ⟨m₁, rfl⟩ := asked
        cases answer with
        | error error => exact thrown error _
        | ok stored =>
            refine ⟨fun c same => ⟨rfl, fun o on => ?_⟩, fun answer v₄ asked => ?_⟩
            · cases same
              cases on
              exact ⟨w, alive⟩
            · obtain ⟨m₂, rfl⟩ := asked
              cases answer with
              | error error => exact thrown error _
              | ok closed =>
                  refine ⟨fun _ none => (by cases none), fun m₃ v₅ cleared => ?_⟩
                  obtain ⟨_, rfl⟩ := cleared
                  refine gives _ rfl ?_
                  rw [held]
                  exact ⟨stored, closed, m₁, m₂, rfl⟩

end LastView

theorem closeDown_latched : closeDown.Latched := by
  have calls (c : Lib)
      : (Worker.lib c).Heeds aloneAct AloneGuard (fun _ alone => alone = true) (fun _ _ => True)
          true := by
    refine ⟨fun f same => (by cases same), fun answer alone step => ?_⟩
    cases step
    cases answer with
    | error error => trivial
    | ok ret => rfl
  refine .alone ⟨fun _ _ => .inl rfl, fun m alone step => ?_⟩
  cases step
  dsimp only [Program.bind]
  cases m.wallet with
  | none => trivial
  | some w =>
      refine heeds_bind.mpr ((calls (.store w "")).mono (fun _ alone held => ?_) fun _ _ => id)
      subst held
      refine heeds_bind.mpr ((calls (.closeWallet w true)).mono (fun _ alone held => ?_)
        fun _ _ => id)
      exact ⟨fun _ _ => .inl held, fun _ _ _ => trivial⟩

namespace Module

open Shared

variable {rule : Surroundings} {library : Library Λ} {always : Shared Λ → Prop}

/-- What happens beside the last section: direct calls, and the host. -/
def lastRules (rule : Surroundings) (library : Library Λ)
    : Pool.Rules Actor Actor.Op Actor.Ans (fun _ => Exn) Actor.Out (Shared Λ) where
  act := Module.act rule library
  starts
    | .worker | .probe => fun _ _ _ _ => False
    | .call n => Module.starts (.call n)
  others := Shared.host
  may _ _ _ := True

theorem lets_lastRules : Lets (lastRules rule library) rule library where
  act := rfl
  worker _ _ _ _ started := started.elim
  starts i other rest p s s' started := by
    cases i with
    | worker => exact absurd rfl other
    | probe => exact started.elim
    | call n => exact started
  others _ _ := id

/-- What the last section sees of the module. -/
def last (s : Shared Λ) : LastView where
  held := s.world.mem.wallet
  history := s.world.history
  alone := s.lock.writer = some .worker

theorem last_same {s s' : Shared Λ} (wallet : s'.world.mem.wallet = s.world.mem.wallet)
    (history : s'.world.history = s.world.history) (lock : s.lock.SameFor .worker s'.lock)
    : last s' = last s := by
  unfold last
  rw [wallet, history, decide_eq_decide.mpr lock.writer]

theorem work_last {s s' : Shared Λ} {op : Op} {answer : op.Ans} (acts : s.work rule op answer s')
    : LastView.act (last s) op answer (last s') := by
  obtain ⟨world, lock, acted, locked, rfl⟩ := acts
  cases op with
  | update f =>
      obtain ⟨rfl, rfl⟩ := acted
      cases locked
      exact ⟨rfl, rfl⟩
  | lock mode =>
      cases acted
      cases mode with
      | shared => exact ⟨_, rfl⟩
      | unique =>
          obtain ⟨_, _, writer, _⟩ := RwLock.tryLock_eq_some.mp locked
          change last (s.worked s.world lock) = { last s with alone := true }
          unfold last worked
          dsimp only
          rw [decide_eq_true writer]
  | unlock mode =>
      cases acted
      exact ⟨_, rfl⟩
  | dequeue =>
      obtain ⟨_, rfl⟩ := acted
      cases locked
      rfl
  | settle ptr out =>
      obtain ⟨_, rfl⟩ := acted
      cases locked
      rfl
  | ask call =>
      obtain ⟨_, rfl⟩ := acted
      cases locked
      exact ⟨s.world.mem.own, rfl⟩

/-- What the last section goes by, and leaves. -/
def ending (held : Option Wallet) (older : History)
    : Pool.Terms Actor Actor.Op (fun _ => Exn) Actor.Out (Shared Λ) where
  rely i _ s s' := i = .worker → last s' = last s
  guard
    | .worker => fun s op => (last s).guard op
    | .probe | .call _ => fun _ _ => True
  ends
    | .worker => fun result s => result = .ok () →
        s.world.mem.wallet = none ∧ History.StoredAndClosed held older s.world.history
    | .probe | .call _ => fun _ _ => True

theorem ending_agree {held : Option Wallet} {older : History}
    : (ending held older).Agree (lastRules rule library) always := by
  refine ⟨fun i _ s s' s'' first second worker => ?_, fun i _ s _ => rfl, ?_, ?_, ?_⟩
  · exact (second worker).trans (first worker)
  · intro t i op answer s' waits _ _ _ _ acts j other worker
    subst worker
    cases i with
    | worker => exact absurd rfl other
    | probe => exact last_same (read_handle acts).1 (read_handle acts).2.2 (read_lock other acts)
    | call n => exact last_same (read_handle acts).1 (read_handle acts).2.2 (read_lock other acts)
  · intro t i p s' started now _ holds
    cases i with
    | worker => exact started.elim
    | probe => exact started.elim
    | call n =>
        obtain ⟨_, _, rfl, rfl⟩ := started
        exact ⟨secure_any (fun _ _ => trivial) (fun _ _ => trivial) _ _, fun j _ _ => rfl⟩
  · intro t s' hosted _ _ j _
    exact last_same (host_handle hosted).1 (host_handle hosted).2.2 (host_lock hosted ▸ .refl)

variable {hasNotify : Bool} {l : Λ} {t t₀ : Module Λ}

/-- A moment of a run with no turn and no round under way. -/
structure AtRest (rule : Surroundings) (library : Library Λ) (hasNotify : Bool) (l : Λ)
    (t : Module Λ)
    : Prop where
  reach : Pool.Reach (rules rule library) (start hasNotify l) t
  worker : t.Loops
  probe : t.rest .probe = .pure ()

/-- The moment at which the last section begins. -/
def ended (t : Module Λ) : Module Λ := t.resume .worker closeDown t.state

theorem ended_other {i : Actor} (other : i ≠ .worker) : (ended t).rest i = t.rest i :=
  Pool.resume_other other

/-- Beside the last section the clients go on as they did. -/
theorem lent_ended (owning : library.Owning) (quiet : AtRest rule library hasNotify l t₀)
    (reach : Pool.Reach (lastRules rule library) (ended t₀) t) (i : Actor)
    : lent.Holds (lastRules rule library) (fun _ => True) t i := by
  refine reach.secure (lent_agree owning lets_lastRules) (fun _ _ => trivial) (fun i => ?_) i
  by_cases worker : i = .worker
  · subst worker
    exact secure_of_latched (fun _ _ _ => id) closeDown_latched t₀.state
  · have before := lent_holds owning quiet.reach i
    unfold Pool.Terms.Holds at before ⊢
    rw [ended_other worker]
    exact before

theorem ending_ended (quiet : AtRest rule library hasNotify l t₀)
    (reach : Pool.Reach (lastRules rule library) (ended t₀) t) (i : Actor)
    : (ending t₀.state.world.mem.wallet t₀.state.world.history).Holds (lastRules rule library)
        (fun _ => True) t i := by
  refine reach.secure ending_agree (fun _ _ => trivial) (fun i => ?_) i
  cases i with
  | worker =>
      have safe := safe_of_reach quiet.reach
      have lives (w : Wallet) (held : (last t₀.state).held = some w) := safe.held w held
      exact Heeds.secure (LastView.closeDown_heeds lives) (fun _ _ _ same => same rfl)
        (fun _ _ _ _ _ _ acts => work_last acts) (fun _ _ _ guarded => guarded)
        (fun _ _ ends _ => ends) fun _ _ _ same => (by cases same)
  | probe => exact secure_any (fun _ _ => trivial) (fun _ _ => trivial) _ _
  | call n => exact secure_any (fun _ _ => trivial) (fun _ _ => trivial) _ _

end Module

/-! ### How a service ends -/

namespace Service

variable {rule : Surroundings} {library : Library Λ} {hasNotify : Bool} {l : Λ}
variable {s s' : Service Λ}

/-- One call of `shutdown()` has got so far, and the others were refused. -/
structure Led (s : Service Λ) (n : Nat) (stage : Stopping) : Prop where
  stopped : s.stop = true
  first : s.callers n = some stage
  others : ∀ m, m ≠ n → s.callers m = none ∨ s.callers m = some .refused

/-- Where a run is: before it is stopped, while it waits for the threads, or from the last section
on. -/
inductive Phase (rule : Surroundings) (library : Library Λ) (hasNotify : Bool) (l : Λ)
    (s : Service Λ)
    : Prop
  | running (goes : s.stop = false) (none_ : ∀ n, s.callers n = none)
    (stay : s.workerLeft = false ∧ s.probeLeft = false)
    (reach : Pool.Reach (Module.rules rule library) (Module.start hasNotify l) s.threads)
  | joining {n : Nat} (led : s.Led n .joining)
    (reach : Pool.Reach (Module.rules rule library) (Module.start hasNotify l) s.threads)
    (worker : s.workerLeft = true → s.threads.Loops)
    (probe : s.probeLeft = true → s.threads.rest .probe = .pure ())
  | ending {n : Nat} {t : Module Λ}
    (led : s.Led n .closing ∨ s.Led n .closed ∧ s.threads.rest .worker = .pure ())
    (quiet : Module.AtRest rule library hasNotify l t)
    (reach : Pool.Reach (Module.lastRules rule library) t.ended s.threads)

theorem Led.unique {n m : Nat} {stage stage' : Stopping} (led : s.Led n stage)
    (found : s.callers m = some stage') (went : stage' ≠ .refused)
    : m = n ∧ stage' = stage := by
  by_cases same : m = n
  · subst same
    exact ⟨rfl, Option.some.inj (found.symm.trans led.first)⟩
  · rcases led.others m same with none_ | refused
    · cases none_.symm.trans found
    · exact absurd (Option.some.inj (found.symm.trans refused)) went

theorem Led.refuse {n m : Nat} {stage : Stopping} (led : s.Led n stage)
    (first : s.callers m = none)
    : (s.at_ m .refused).Led n stage := by
  have other : n ≠ m := by
    rintro rfl
    cases led.first.symm.trans first
  refine ⟨led.stopped, (Function.update_of_ne other ..).trans led.first, fun k others => ?_⟩
  by_cases same : k = m
  · subst same
    exact .inr (Function.update_self ..)
  · rw [show (s.at_ m .refused).callers k = s.callers k from Function.update_of_ne same ..]
    exact led.others k others

/-- The call that leads goes on. -/
theorem Led.goes {n : Nat} {stage stage' : Stopping} (led : s.Led n stage)
    : (s.at_ n stage').Led n stage' := by
  refine ⟨led.stopped, Function.update_self .., fun k others => ?_⟩
  rw [show (s.at_ n stage').callers k = s.callers k from Function.update_of_ne others ..]
  exact led.others k others

/-- Who is at the top of its loop makes no call once it is stopped. -/
theorem not_calling {op : Op} {next : op.Ans → Worker Unit} (stopped : s.stop = true)
    (waits : s.threads.rest .worker = .call op next) (may : s.May .worker op)
    : ¬ s.threads.Loops := by
  rintro (again | idle)
  · have same : turn = .call op next := again.symm.trans waits
    cases same
    cases stopped.symm.trans (may rfl)
  · cases idle.symm.trans waits

/-- A thread's call, before the last section. -/
theorem Phase.call {i : Actor} {op : i.Op} {next answer state}
    (phase : Phase rule library hasNotify l s) (waits : s.threads.rest i = .call op next)
    (may : s.May i op) (acts : Module.act rule library i s.threads.state op answer state)
    : Phase rule library hasNotify l (s.resume i (next answer) state) := by
  cases phase with
  | running goes none_ stay reach =>
      exact .running goes none_ stay (reach.tail (.call waits trivial acts))
  | joining led reach worker probe =>
      refine .joining ⟨led.stopped, led.first, led.others⟩ (reach.tail (.call waits trivial acts))
        (fun left => ?_) fun left => ?_
      · cases i with
        | worker => exact absurd (worker left) (not_calling led.stopped waits may)
        | _ => exact worker left
      · cases i with
        | probe => cases (probe left).symm.trans waits
        | _ => exact probe left
  | ending led quiet reach =>
      refine .ending (led.imp (fun led => ⟨led.stopped, led.first, led.others⟩) fun both => ?_) quiet
        (reach.tail (.call waits trivial acts))
      refine ⟨⟨both.1.stopped, both.1.first, both.1.others⟩, ?_⟩
      cases i with
      | worker => cases both.2.symm.trans waits
      | _ => exact both.2

/-- A round or a direct call that begins. -/
theorem Phase.start {i : Actor} {p state} (phase : Phase rule library hasNotify l s)
    (goes : s.Goes i) (starts : Module.starts i (s.threads.rest i) p s.threads.state state)
    : Phase rule library hasNotify l (s.resume i p state) := by
  cases phase with
  | running goes none_ stay reach => exact .running goes none_ stay (reach.tail (.start starts))
  | joining led reach worker probe =>
      refine .joining ⟨led.stopped, led.first, led.others⟩ (reach.tail (.start starts))
        (fun left => ?_) fun left => ?_
      · cases i with
        | worker => cases led.stopped.symm.trans goes
        | _ => exact worker left
      · cases i with
        | probe => cases led.stopped.symm.trans goes
        | _ => exact probe left
  | ending led quiet reach =>
      have stopped : s.stop = true := by
        rcases led with led | both
        · exact led.stopped
        · exact both.1.stopped
      cases i with
      | worker => cases stopped.symm.trans goes
      | probe => cases stopped.symm.trans goes
      | call n =>
          refine .ending (led.imp (fun led => ⟨led.stopped, led.first, led.others⟩) fun both => ?_)
            quiet (reach.tail (.start starts))
          exact ⟨⟨both.1.stopped, both.1.first, both.1.others⟩, both.2⟩

theorem Phase.host {state : Shared Λ} (phase : Phase rule library hasNotify l s)
    (hosted : s.threads.state.host state)
    : Phase rule library hasNotify l { s with threads := { s.threads with state } } := by
  cases phase with
  | running goes none_ stay reach => exact .running goes none_ stay (reach.tail (.other hosted))
  | joining led reach worker probe =>
      exact .joining ⟨led.stopped, led.first, led.others⟩ (reach.tail (.other hosted)) worker probe
  | ending led quiet reach =>
      refine .ending (led.imp (fun led => ⟨led.stopped, led.first, led.others⟩) fun both => ?_) quiet
        (reach.tail (.other hosted))
      exact ⟨⟨both.1.stopped, both.1.first, both.1.others⟩, both.2⟩

/-- A call that is refused changes nothing for the one that leads. -/
theorem Phase.refuse {m : Nat} (phase : Phase rule library hasNotify l s)
    (first : s.callers m = none) (stopped : s.stop = true)
    : Phase rule library hasNotify l (s.at_ m .refused) := by
  cases phase with
  | running goes none_ stay reach => cases stopped.symm.trans goes
  | joining led reach worker probe => exact .joining (led.refuse first) reach worker probe
  | ending led quiet reach =>
      exact .ending (led.imp (fun led => led.refuse first) fun both => ⟨both.1.refuse first, both.2⟩)
        quiet reach

theorem Step.phase (step : Step rule library s s') (phase : Phase rule library hasNotify l s)
    : Phase rule library hasNotify l s' := by
  cases step with
  | call waits may acts => exact phase.call waits may acts
  | start goes starts => exact phase.start goes starts
  | host hosted => exact phase.host hosted
  | refuses first stopped => exact phase.refuse first stopped
  | @stops n first goes =>
      cases phase with
      | running _ none_ stay reach =>
          refine .joining ⟨rfl, Function.update_self .., fun m other => .inl ?_⟩ reach
            (fun left => ?_) fun left => ?_
          · exact (Function.update_of_ne other ..).trans (none_ m)
          · cases stay.1.symm.trans left
          · cases stay.2.symm.trans left
      | joining led => cases led.stopped.symm.trans goes
      | ending led =>
          rcases led with led | both
          · cases led.stopped.symm.trans goes
          · cases both.1.stopped.symm.trans goes
  | workerLeaves stopped loops =>
      cases phase with
      | running goes => cases stopped.symm.trans goes
      | joining led reach worker probe =>
          exact .joining ⟨led.stopped, led.first, led.others⟩ reach (fun _ => loops) probe
      | ending led quiet reach =>
          refine .ending (led.imp (fun led => ⟨led.stopped, led.first, led.others⟩) fun both => ?_)
            quiet reach
          exact ⟨⟨both.1.stopped, both.1.first, both.1.others⟩, both.2⟩
  | probeLeaves stopped loops =>
      cases phase with
      | running goes => cases stopped.symm.trans goes
      | joining led reach worker probe =>
          exact .joining ⟨led.stopped, led.first, led.others⟩ reach worker fun _ => loops
      | ending led quiet reach =>
          refine .ending (led.imp (fun led => ⟨led.stopped, led.first, led.others⟩) fun both => ?_)
            quiet reach
          exact ⟨⟨both.1.stopped, both.1.first, both.1.others⟩, both.2⟩
  | @closes n joining worker probe =>
      cases phase with
      | running _ none_ => cases (none_ n).symm.trans joining
      | joining led reach atTop idle =>
          obtain ⟨rfl, _⟩ := led.unique joining (by simp)
          have went : (s.at_ n .closing).Led n .closing := led.goes
          exact .ending (.inl ⟨went.stopped, went.first, went.others⟩)
            ⟨reach, atTop worker, idle probe⟩ .refl
      | ending led =>
          rcases led with led | both
          · cases (led.unique joining (by simp)).2
          · cases (both.1.unique joining (by simp)).2
  | @returns n closing returned =>
      cases phase with
      | running _ none_ => cases (none_ n).symm.trans closing
      | joining led => cases (led.unique closing (by simp)).2
      | ending led quiet reach =>
          rcases led with led | both
          · obtain ⟨rfl, _⟩ := led.unique closing (by simp)
            exact .ending (.inr ⟨led.goes, returned⟩) quiet reach
          · cases (both.1.unique closing (by simp)).2

theorem Reach.phase (reach : Reach rule library hasNotify l s)
    : Phase rule library hasNotify l s := by
  induction reach with
  | refl => exact .running rfl (fun _ => rfl) ⟨rfl, rfl⟩ .refl
  | tail _ step ih => exact step.phase ih

/-- What a client or the probe is about to call on, beside the last section. -/
theorem on_beside {t t₀ : Module Λ} (owning : library.Owning)
    (quiet : Module.AtRest rule library hasNotify l t₀)
    (reach : Pool.Reach (Module.lastRules rule library) t₀.ended t) {i : Actor} {op : i.Op}
    {o : LibObject} (other : i ≠ .worker) (waits : (t.rest i).head = some op) (on : o ∈ i.on op)
    : (∃ w, t.state.world.mem.wallet = some w) ∧ t.state.lock.Holds i := by
  have guarded := (Module.lent_ended owning quiet reach i).guarded
    (Module.lent_agree owning Module.lets_lastRules) trivial waits
  have held {mode : Option LockMode} {need : LockMode} (covers : Covers mode (some need))
      : mode ≠ none := by
    cases need with
    | shared => exact covers
    | unique => exact fun none_ => by cases none_.symm.trans covers
  cases i with
  | worker => exact absurd rfl other
  | probe =>
      obtain ⟨w, _, isOpen, covers⟩ := Module.on_reader guarded.2 on
      cases op with
      | query c =>
          obtain ⟨mode, holds⟩ := Option.ne_none_iff_exists'.mp (held covers)
          exact ⟨⟨w, isOpen⟩, LockMode.holds_of_held holds⟩
      | _ => cases on
  | call n =>
      obtain ⟨w, _, isOpen, covers⟩ := Module.on_reader guarded.2 on
      cases op with
      | query c =>
          obtain ⟨mode, holds⟩ := Option.ne_none_iff_exists'.mp (held covers)
          exact ⟨⟨w, isOpen⟩, LockMode.holds_of_held holds⟩
      | _ => cases on

/-- With no turn under way no job is running. -/
theorem none_running {t : Module Λ} (quiet : Module.AtRest rule library hasNotify l t)
    (few : t.state.world.tickets.Few) {ptr : JobPtr} {job : Job}
    (found : t.state.world.tickets.heap[ptr]? = some job)
    : job.state ≠ .running := by
  intro running
  have reach := Module.refines_rules.reachable quiet.reach
  have hand := (reach.filed few).running ptr job found running
  have heeds := reach.attends.heeds
  have free : inHand t.state.world.history = none := by
    rcases quiet.worker with again | idle
    · rw [show t.worker.rest = turn from again] at heeds
      exact heeds.1
    · rw [show t.worker.rest = .pure () from idle] at heeds
      exact heeds
  cases free.symm.trans hand

/-! ### A service that ends -/

/-- A run of the threads is one of a service that is not stopped. -/
theorem reach_threads {t : Module Λ}
    (reach : Pool.Reach (Module.rules rule library) (Module.start hasNotify l) t)
    : Reach rule library hasNotify l { threads := t } := by
  induction reach with
  | refl => exact .refl
  | tail _ step ih =>
      cases step with
      | @call i op next answer state waits _ acts =>
          refine ih.tail (@Step.call _ _ _ _ i op next answer state waits ?_ acts)
          cases i <;> first | exact fun _ => rfl | trivial
      | @start i p state starts =>
          refine ih.tail (@Step.start _ _ _ _ i p state ?_ starts)
          cases i <;> first | rfl | trivial
      | other hosted => exact ih.tail (.host hosted)

/-- A service that the call 0 of `shutdown()` stopped at a quiet moment, as it begins to close. -/
def closing (t : Module Λ) : Service Λ where
  threads := t.ended
  stop := true
  workerLeft := true
  probeLeft := true
  callers := Function.update (Function.update (fun _ => none) 0 (some .joining)) 0 (some .closing)

theorem reach_closing {t : Module Λ} (quiet : Module.AtRest rule library hasNotify l t)
    : Reach rule library hasNotify l (closing t) := by
  have stopped := (reach_threads quiet.reach).tail (.stops (n := 0) rfl rfl)
  have left := (stopped.tail (.workerLeaves rfl quiet.worker)).tail (.probeLeaves rfl quiet.probe)
  exact left.tail (.closes (n := 0) rfl rfl rfl)

/-- The last section goes on, as a script answers. Induction on the number of its calls. -/
theorem Reach.goOn {script : Script} {answers : Answers Λ} (follows : script.Follows rule)
    (follow : answers.Follow library) (count : Nat) {t : Module Λ}
    (reach : Reach rule library hasNotify l { s with threads := t })
    (within : (t.rest .worker).Within (fun op => op ≠ .dequeue) (fun _ => True) fun _ => True)
    : Reach rule library hasNotify l
        { s with threads := Pool.run (Module.oracle script answers) .worker count t } := by
  induction count generalizing t with
  | zero => exact reach
  | succ count ih =>
      unfold Pool.run
      split
      next t' advanced =>
        unfold Pool.advance at advanced
        split at advanced
        next op next waits =>
          obtain ⟨acted, answered, rfl⟩ := Option.map_eq_some_iff.mp advanced
          rw [waits] at within
          refine ih (reach.tail (.call waits ?_ (Module.oracle_act follows follow _ _ _ _ answered)))
            ?_
          · exact fun same => absurd same within.1
          · rw [Pool.resume_same]
            exact within.2 _
        next => cases advanced
      next => exact reach

theorem closeDown_within
    : closeDown.Within (fun op => op ≠ .dequeue) (fun _ => True) fun _ => True := by
  have stays : closeDown.Stays fun op => op ≠ .dequeue := by
    have calls {c : Lib} : (Worker.lib c).Stays fun op => op ≠ .dequeue := .call (by simp)
    refine ⟨by simp, fun _ => Worker.Stays.ensure (.bind (.update (by simp)) fun m => ?_)
      ⟨by simp, fun _ => trivial⟩⟩
    cases m.wallet with
    | none => exact .value
    | some w =>
        exact .bind calls fun _ => .bind calls fun _ => .bind (.update (by simp)) fun _ => .value
  exact stays

theorem goodScript_closing {answers : Answers Λ} (follow : answers.Follow library) {t : Module Λ}
    (quiet : Module.AtRest LibraryReturns library hasNotify l t) (count : Nat)
    : Reach LibraryReturns library hasNotify l
        { closing t with
          threads := Pool.run (Module.oracle Module.goodScript answers) .worker count t.ended } :=
  Reach.goOn Script.succeeding_returns follow count (reach_closing quiet) (by
    unfold Module.ended
    rw [Pool.resume_same]
    exact closeDown_within)

/-- While the last section is in the library, which is on what lives, nobody else is. -/
theorem shutdown_closes_alone (owning : library.Owning) (reach : Reach rule library hasNotify l s)
    {n : Nat} (closing : s.callers n = some .closing) {c : Lib}
    (waits : (s.threads.rest .worker).head = some (.ask (.lib c))) {o : LibObject} (on : o ∈ c.on)
    : (∃ w, (objects s.threads.state.world.history).owner o = some w)
      ∧ ∀ (i : Actor) (op : i.Op), i ≠ .worker → (s.threads.rest i).head = some op →
        i.on op = none := by
  cases reach.phase with
  | running _ none_ => cases (none_ n).symm.trans closing
  | joining led => cases (led.unique closing (by simp)).2
  | ending led quiet after =>
      have guarded := (Module.ending_ended quiet after .worker).guarded Module.ending_agree trivial
        waits
      obtain ⟨alone, lives⟩ := guarded c rfl
      refine ⟨lives o on, fun i op other calls => ?_⟩
      by_contra objects
      obtain ⟨o', here⟩ := Option.ne_none_iff_exists'.mp objects
      obtain ⟨_, holds⟩ := on_beside owning quiet after other calls here
      exact other (holds.eq_writer (of_decide_eq_true alone))

/-- A module in which a wallet is open and nothing is under way. -/
theorem opened_atRest
    : Module.AtRest LibraryReturns Module.owningLibrary true ()
        (Module.opened anyAnswers () "w") where
  reach :=
    Module.refines_rules.opened_reach (fun _ _ => id) (fun _ _ => trivial)
      Script.succeeding_returns Module.anyAnswers_follow
  worker := .inr rfl
  probe := rfl

/-- The last section of that module, after its first calls. -/
def closingOpened (count : Nat) : Service Unit :=
  { closing (Module.opened anyAnswers () "w") with
    threads :=
      Pool.run (Module.oracle Module.goodScript anyAnswers) .worker count
        (Module.opened anyAnswers () "w").ended }

theorem shutdown_closes_alone_opened
    : (∃ w, (objects (closingOpened 2).threads.state.world.history).owner (.wallet ⟨9⟩) = some w)
      ∧ ∀ (i : Actor) (op : i.Op), i ≠ .worker → ((closingOpened 2).threads.rest i).head = some op →
        i.on op = none := by
  have waits : ((closingOpened 2).threads.rest .worker).head
      = some (.ask (.lib (.store ⟨9⟩ ""))) := rfl
  exact shutdown_closes_alone (fun _ _ _ _ _ owns => owns)
    (goodScript_closing Module.anyAnswers_follow opened_atRest 2) (n := 0) rfl waits rfl

/-- Once the call of `shutdown()` that stopped the module has returned, for good: no wallet is in
place and nobody is about to call on one; the other calls were refused. It waited for a moment with
no job running, and all that has been asked for since is to store and close the wallet that was
then in place. -/
theorem shutdown_closes_what_is_open (owning : library.Owning)
    (reach : Reach rule library hasNotify l s) {n : Nat} (closed : s.callers n = some .closed)
    : s.threads.state.world.mem.wallet = none
      ∧ (∀ (i : Actor) (op : i.Op), (s.threads.rest i).head = some op → i.on op = none)
      ∧ (∀ m, m ≠ n → s.callers m = none ∨ s.callers m = some .refused)
      ∧ ∃ t, Module.AtRest rule library hasNotify l t
        ∧ (t.state.world.tickets.Few → ∀ (ptr : JobPtr) (job : Job),
          t.state.world.tickets.heap[ptr]? = some job → job.state ≠ .running)
        ∧ History.StoredAndClosed t.state.world.mem.wallet t.state.world.history
          s.threads.state.world.history := by
  cases reach.phase with
  | running _ none_ => cases (none_ n).symm.trans closed
  | joining led => cases (led.unique closed (by simp)).2
  | @ending _ t led quiet after =>
      obtain ⟨led, returned⟩ := led.resolve_left fun led => by
        cases (led.unique closed (by simp)).2
      obtain ⟨rfl, _⟩ := led.unique closed (by simp)
      obtain ⟨gone, stored⟩ := (Module.ending_ended quiet after .worker).ended Module.ending_agree
        trivial returned rfl
      refine ⟨gone, fun i op waits => ?_, led.others, t, quiet, fun few ptr job => none_running quiet few,
        stored⟩
      by_contra objects
      obtain ⟨o, on⟩ := Option.ne_none_iff_exists'.mp objects
      by_cases worker : i = .worker
      · subst worker
        rw [returned] at waits
        cases waits
      · obtain ⟨⟨w, isOpen⟩, _⟩ := on_beside owning quiet after worker waits on
        cases gone.symm.trans isOpen

/-- The same module once the call has returned. -/
def closedOpened : Service Unit := (closingOpened 20).at_ 0 .closed

theorem shutdown_closes_what_is_open_opened
    : closedOpened.threads.state.world.mem.wallet = none
      ∧ ∃ t, Module.AtRest LibraryReturns Module.owningLibrary true () t
        ∧ History.StoredAndClosed t.state.world.mem.wallet t.state.world.history
          closedOpened.threads.state.world.history := by
  have reach : Reach LibraryReturns Module.owningLibrary true () closedOpened :=
    (goodScript_closing Module.anyAnswers_follow opened_atRest 20).tail (.returns (n := 0) rfl rfl)
  obtain ⟨gone, _, _, t, quiet, _, stored⟩ :=
    shutdown_closes_what_is_open (fun _ _ _ _ _ owns => owns) reach (n := 0) rfl
  exact ⟨gone, t, quiet, stored⟩

end Service

end MoneroWalletCore.Runtime
