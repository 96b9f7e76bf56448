import MoneroWalletCore.Clients.HandleLock
import MoneroWalletCore.Runtime.Replay
import MoneroWalletCore.Session.OpenAttempt

/-! Runs of the module that can be computed: a schedule of which thread goes on for how long,
with the answers of a script and of a library. Every schedule is a run.
-/

namespace MoneroWalletCore.Runtime

variable {Λ : Type} {rule : Surroundings} {library : Library Λ}

/-- A library that answers in one way, if it answers. -/
abbrev Answers (Λ : Type) := Λ → Actor → (c : Query) → Option (Except Exn c.Ret × Λ)

/-- It only answers as the library may. -/
def Answers.Follow (answers : Answers Λ) (library : Library Λ) : Prop :=
  ∀ l i c answered, answers l i c = some answered → library l i c answered.1 answered.2

/-- An answer to anything. -/
def Query.plain : (c : Query) → c.Ret
  | .lib c => c.succeeds true 2 []
  | .daemonBlockChainHeight _ | .balance .. | .unlockedBalance .. | .numSubaddresses .. =>
      (1 : UInt64)
  | .getSubaddressLabel .. | .seed .. | .secretViewKey _ => ""
  | .addSubaddress .. | .setSubaddressLabel .. | .historyRefresh _ => ()
  | .history w => some ⟨w⟩
  | .historyCount _ => (0 : Int)
  | .historyTransaction .. => none
  | .info _ i =>
      match i with
      | .transfersCount | .direction => (0 : Int)
      | .transfersAddress _ | .hash | .paymentId | .description | .subaddrIndex _ => ""
      | .transfersAmount _ | .amount | .fee | .blockHeight | .confirmations | .timestamp
      | .unlockTime => (0 : UInt64)
      | .isPending | .isFailed | .isCoinbase => false
      | .subaddrAccount => (0 : UInt32)

namespace Shared

/-- The worker's action answered by the script, unless it is blocked. -/
def workBy (script : Script) (s : Shared Λ) (op : Op) : Option (op.Ans × Shared Λ) :=
  (s.lockAfter op).map fun lock =>
    let acted := s.world.answer script op
    (acted.1, s.worked acted.2 lock)

/-- The action of a client or the probe, unless it is blocked. A lock in time is one at once. -/
def readBy (answers : Answers Λ) (i : Actor) (s : Shared Λ) (op : ReadOp)
    : Option (op.Ans × Shared Λ) :=
  match op with
  | .members => some (s.world.mem, s.noted i .members s.world.mem)
  | .handle => some (s.world.mem.wallet, s.noted i .handle s.world.mem.wallet)
  | .lock mode => (mode.take? s.lock i).map fun lock => ((), { s with lock })
  | .tryLock =>
      match LockMode.shared.take? s.lock i with
      | some lock => some (true, { s with lock })
      | none => some (false, s)
  | .unlock mode => some ((), { s with lock := mode.give s.lock i })
  | .query c =>
      (answers s.library i c).map fun answered =>
        (answered.1, { s with library := answered.2 }.noted i (.query c) answered.1)
  | .socketsTo .. => some ((1 : Nat), s)
  | .record w connected height => some ((), s.recorded w connected height)

theorem workBy_work {script : Script} (follows : script.Follows rule) {s : Shared Λ} {op : Op}
    {acted : op.Ans × Shared Λ} (answered : s.workBy script op = some acted)
    : s.work rule op acted.1 acted.2 := by
  obtain ⟨lock, free, rfl⟩ := Option.map_eq_some_iff.mp answered
  exact ⟨_, lock, s.world.answer_act follows op, free, rfl⟩

theorem readBy_read {answers : Answers Λ} (follow : answers.Follow library) {i : Actor}
    {s : Shared Λ} {op : ReadOp} {acted : op.Ans × Shared Λ}
    (answered : s.readBy answers i op = some acted)
    : s.read library i op acted.1 acted.2 := by
  cases op with
  | members =>
      cases answered
      exact ⟨rfl, rfl⟩
  | handle =>
      cases answered
      exact ⟨rfl, rfl⟩
  | lock mode =>
      obtain ⟨lock, free, rfl⟩ := Option.map_eq_some_iff.mp answered
      exact ⟨lock, free, rfl⟩
  | tryLock =>
      simp only [readBy] at answered
      split at answered
      next lock free =>
        cases answered
        exact ⟨lock, free, rfl⟩
      next =>
        cases answered
        exact ⟨s.lock, rfl, rfl⟩
  | unlock mode =>
      cases answered
      rfl
  | query c =>
      obtain ⟨reply, replied, rfl⟩ := Option.map_eq_some_iff.mp answered
      exact ⟨_, follow s.library i c reply replied, rfl⟩
  | socketsTo hostport drop =>
      cases answered
      rfl
  | record w connected height =>
      cases answered
      rfl

end Shared

/-- What happens next in a schedule. -/
inductive Turning where
  | client (call : ClientCall)
  /-- The host sets its directory, if it has not. -/
  | setWalletsDir
  /-- The worker or the probe begins a round, once it has ended its last. -/
  | begin (i : Actor)
  /-- A client makes a call, each at most one. -/
  | request (n : Nat) (request : Request)
  /-- A thread makes its next calls, as many as it is not blocked in. -/
  | run (i : Actor) (count : Nat)

namespace Module

def oracle (script : Script) (answers : Answers Λ)
    : ∀ i : Actor, Shared Λ → (op : i.Op) → Option (i.Ans op × Shared Λ)
  | .worker => Shared.workBy script
  | .probe => Shared.readBy answers .probe
  | .call n => Shared.readBy answers (.call n)

/-- A module after the next of its schedule. What cannot be is left out. -/
def afterTurning (script : Script) (answers : Answers Λ) (t : Module Λ) : Turning → Module Λ
  | .client call => { t with state := { t.state with world := t.state.world.afterClient call } }
  | .setWalletsDir =>
      if t.state.world.mem.walletsDir = "" then
        { t with state := { t.state with world := t.state.world.inDir "/wallets" } }
      else
        t
  | .begin .worker =>
      match t.rest .worker with
      | .pure () => t.resume .worker turn t.state
      | _ => t
  | .begin .probe =>
      match t.rest .probe with
      | .pure () => t.resume .probe probeRound t.state
      | _ => t
  | .begin (.call _) => t
  | .request n request =>
      match t.state.requests n with
      | none =>
          t.resume (.call n) request.body
            { t.state with requests := Function.update t.state.requests n (some request) }
      | some _ => t
  | .run i count => Pool.run (oracle script answers) i count t

/-- A module after a schedule. -/
def play (script : Script) (answers : Answers Λ) (schedule : List Turning) (t : Module Λ)
    : Module Λ :=
  schedule.foldl (afterTurning script answers) t

theorem oracle_act {script : Script} (follows : script.Follows rule) {answers : Answers Λ}
    (follow : answers.Follow library) (i : Actor) (s : Shared Λ) (op : i.Op)
    (acted : i.Ans op × Shared Λ) (answered : oracle script answers i s op = some acted)
    : act rule library i s op acted.1 acted.2 := by
  cases i with
  | worker => exact Shared.workBy_work follows answered
  | probe => exact Shared.readBy_read follow answered
  | call n => exact Shared.readBy_read follow answered

variable {rules : Pool.Rules Actor Actor.Op Actor.Ans (fun _ => Exn) Actor.Out (Shared Λ)}
variable {script : Script} {answers : Answers Λ}

/-- Where every call may be made and the host sets its directory once, a schedule is a run. -/
structure Plays (rules : Pool.Rules Actor Actor.Op Actor.Ans (fun _ => Exn) Actor.Out (Shared Λ))
    (script : Script) (answers : Answers Λ)
    : Prop where
  act : ∀ i s op acted, oracle script answers i s op = some acted → rules.act i s op acted.1 acted.2
  starts : rules.starts = starts
  clients : ∀ s call, rules.others s { s with world := s.world.afterClient call }
  sets : ∀ s, s.world.mem.walletsDir = "" →
    rules.others s { s with world := s.world.inDir "/wallets" }
  may : ∀ t i op, rules.may t i op

theorem plays_rules (follows : script.Follows rule) (follow : answers.Follow library)
    : Plays (Module.rules rule library) script answers where
  act := oracle_act follows follow
  starts := rfl
  clients s call := ⟨_, .client s.world call, rfl⟩
  sets s _ := ⟨_, .setWalletsDir s.world "/wallets", rfl⟩
  may _ _ _ := trivial

theorem Plays.turning (plays : Plays rules script answers) {start t : Module Λ}
    (reach : Pool.Reach rules start t) (turning : Turning)
    : Pool.Reach rules start (t.afterTurning script answers turning) := by
  cases turning with
  | client call =>
      exact reach.tail (@Pool.Step.other _ _ _ _ _ _ _ rules t _ (plays.clients _ call))
  | setWalletsDir =>
      simp only [afterTurning]
      split
      next unset => exact reach.tail (@Pool.Step.other _ _ _ _ _ _ _ rules t _ (plays.sets _ unset))
      next => exact reach
  | begin i =>
      cases i with
      | worker =>
          simp only [afterTurning]
          split
          next idle => exact reach.tail (.start (plays.starts ▸ ⟨idle, rfl, rfl⟩))
          next => exact reach
      | probe =>
          simp only [afterTurning]
          split
          next idle => exact reach.tail (.start (plays.starts ▸ ⟨idle, rfl, rfl⟩))
          next => exact reach
      | call n => exact reach
  | request n request =>
      simp only [afterTurning]
      split
      next first => exact reach.tail (.start (plays.starts ▸ ⟨first, request, rfl, rfl⟩))
      next => exact reach
  | run i count => exact Pool.reach_run plays.act (fun _ _ _ _ => plays.may _ _ _) reach

/-- Induction on the schedule. -/
theorem Plays.reach (plays : Plays rules script answers) {start t : Module Λ}
    (reach : Pool.Reach rules start t) (schedule : List Turning)
    : Pool.Reach rules start (t.play script answers schedule) := by
  induction schedule generalizing t with
  | nil => exact reach
  | cons turning rest ih => exact ih (plays.turning reach turning)

/-! ### A schedule -/

/-- A job that the worker runs to its end. -/
def job (kind : String) (params : Json) : List Turning :=
  [.client (.startJob kind params "receipt"), .begin .worker, .run .worker 200]

/-- A round of the probe. -/
def probing : List Turning := [.begin .probe, .run .probe 200]

def opening (name : String) : List Turning :=
  job "open_wallet" (.obj [("name", .str name), ("network", .str "stagenet")])

/-- A direct call, that goes on for as long as it is not blocked. -/
def calling (n : Nat) (request : Request) : List Turning :=
  [.request n request, .run (.call n) 200]

/-- Everything succeeds that the worker asks for. -/
def goodScript : Script := .succeeding true 2 (clearNode (.bool true))

/-- A module in which a wallet of that name was opened. -/
def opened (answers : Answers Λ) (l : Λ) (name : String) : Module Λ :=
  (start true l).play goodScript answers (.setWalletsDir :: opening name)

/-- It is so opened in every run in which the worker may make all its calls. -/
theorem Refines.opened_reach (refines : Refines rules rule library) {l : Λ} {name : String}
    (hosts : ∀ s s', s.host s' → rules.others s s') (may : ∀ t op, rules.may t .worker op)
    (follows : goodScript.Follows rule) (follow : answers.Follow library)
    : Pool.Reach rules (start true l) (opened answers l name) := by
  have act : ∀ i s op acted, oracle goodScript answers i s op = some acted →
      rules.act i s op acted.1 acted.2 := by
    rw [refines.act]
    exact oracle_act follows follow
  have told (t : Module Λ) (world : World) (hosted : Shared.Hosted t.state.world world)
      : Pool.Step rules t { t with state := { t.state with world } } :=
    .other (hosts _ _ ⟨world, hosted, rfl⟩)
  have placed := (Relation.ReflTransGen.refl (r := Pool.Step rules)).tail
    (told (start true l) _ (.setWalletsDir _ "/wallets"))
  refine Pool.reach_run act (fun _ _ _ _ => may _ _)
    ((placed.tail (told _ _ (.client _ _))).tail (.start ?_))
  rw [refines.starts]
  exact ⟨rfl, rfl, rfl⟩

end Module

end MoneroWalletCore.Runtime
