import MoneroWalletCore.Runtime.TurnInvariants

/-! Runs that can be computed: the surroundings answer by a script, the clients and the host
step between turns, and every world so reached is reachable.
-/

namespace MoneroWalletCore.Runtime

open Program

/-- How the surroundings answer each call, given the history before it. -/
abbrev Script := History → (call : Call) → call.Answer

/-- The script only gives answers that the surroundings may give. -/
def Script.Follows (script : Script) (rule : Surroundings) : Prop :=
  ∀ h call m, rule h (.asked call (script h call) m)

/-- An action answered by the script. -/
def World.answer (script : Script) (w : World) (op : Op) : op.Ans × World :=
  match op with
  | .update f => (w.mem, { w with mem := f w.mem })
  | .lock _ => ((), w)
  | .unlock _ => ((), w)
  | .dequeue =>
      (
        w.tickets.dequeue.1,
        { w with
          tickets := w.tickets.dequeue.2
          history := beganBy w.tickets.dequeue.1 ++ w.history }
      )
  | .settle ptr out =>
      let settled := w.tickets.settle ptr out
      (
        settled.1,
        { w with tickets := settled.2, history := .settled ptr out settled.1 :: w.history }
      )
  | .ask c =>
      let answer := script w.history c
      (answer, { w with history := .asked c answer w.mem.own :: w.history })

theorem World.answer_act {script : Script} {rule : Surroundings} (follows : script.Follows rule)
    (w : World) (op : Op)
    : World.act rule w op (w.answer script op).1 (w.answer script op).2 := by
  cases op with
  | update f => exact ⟨rfl, rfl⟩
  | lock mode => exact rfl
  | unlock mode => exact rfl
  | dequeue => exact ⟨rfl, rfl⟩
  | settle ptr out => exact ⟨rfl, rfl⟩
  | ask c => exact ⟨follows _ _ _, rfl⟩

/-- The world after a turn. -/
def World.afterTurn (script : Script) (w : World) : World :=
  (turn.exec (World.answer script) w).2

/-- Others may be any at all: nobody steps in it. -/
theorem World.afterTurn_whole {script : Script} {rule : Surroundings} {others : World → World → Prop}
    (follows : script.Follows rule) (w : World)
    : Thread.WholeTurn (World.act rule) others turn w (w.afterTurn script) := by
  have runs := runs_exec (World.answer_act follows) turn w
  obtain ⟨_, returned⟩ := turn_catches.exec_ok (World.answer script) w
  rw [returned] at runs
  exact Thread.moves_of_runs runs

theorem World.afterTurn_turn {script : Script} {rule : Surroundings}
    (follows : script.Follows rule) (w : World)
    : World.Turn rule w (w.afterTurn script) :=
  World.afterTurn_whole follows w

theorem Reachable.afterTurn {script : Script} {rule : Surroundings} {hasNotify : Bool} {w : World}
    (reach : Reachable rule hasNotify ⟨.pure (), w⟩) (follows : script.Follows rule)
    : Reachable rule hasNotify ⟨.pure (), w.afterTurn script⟩ :=
  reach.wholeTurn (World.afterTurn_turn follows w)

/-- An action only adds to the history. -/
theorem World.answer_history (script : Script) (w : World) (op : Op)
    : w.history <:+ (w.answer script op).2.history := by
  cases op with
  | update f => exact List.suffix_refl _
  | lock mode => exact List.suffix_refl _
  | unlock mode => exact List.suffix_refl _
  | dequeue => exact List.suffix_append _ _
  | settle ptr out => exact List.suffix_cons _ _
  | ask c => exact List.suffix_cons _ _

theorem World.exec_history {α : Type} (script : Script) (p : Worker α) (w : World)
    : w.history <:+ (p.exec (World.answer script) w).2.history := by
  induction p generalizing w with
  | pure value => exact List.suffix_refl _
  | throw error => exact List.suffix_refl _
  | call op next ih => exact (w.answer_history script op).trans (ih _ _)

/-- The events of a turn. -/
def World.turnEvents (script : Script) (w : World) : History :=
  (w.afterTurn script).history.take ((w.afterTurn script).history.length - w.history.length)

theorem World.afterTurn_history (script : Script) (w : World)
    : (w.afterTurn script).history = w.turnEvents script ++ w.history :=
  (List.suffix_iff_eq_append.mp (World.exec_history script turn w)).symm

/-- A turn that is under way throws nothing either. -/
theorem Reachable.returns {rule : Surroundings} {hasNotify : Bool} {t : System}
    (reach : Reachable rule hasNotify t)
    : t.rest.Within (fun _ => True) (fun _ => True) (fun _ => False) := by
  induction reach with
  | refl => trivial
  | tail _ step ih =>
      cases step with
      | move moves =>
          cases moves with
          | call => exact ih.2 _
          | other => exact ih
      | turn => exact turn_catches

/-- Every run goes on to the end of its turn, where the surroundings can answer all calls. -/
theorem Reachable.completed {script : Script} {rule : Surroundings} {hasNotify : Bool} {t : System}
    (reach : Reachable rule hasNotify t) (follows : script.Follows rule)
    : ∃ w, Reachable rule hasNotify ⟨.pure (), w⟩ ∧ t.state.history <:+ w.history := by
  have runs := runs_exec (World.answer_act follows) t.rest t.state
  obtain ⟨_, returned⟩ := reach.returns.exec_ok (World.answer script) t.state
  rw [returned] at runs
  have moves : Relation.ReflTransGen (Thread.Move (World.act rule) World.Other) t ⟨.pure (), _⟩ :=
    Thread.moves_of_runs runs
  exact ⟨_, Relation.ReflTransGen.trans reach (moves.lift id fun _ _ => Thread.Step.move),
    World.exec_history script t.rest t.state⟩

-----------------------------------------------------------------------------------------
-- The actions of a replay
-----------------------------------------------------------------------------------------

section exec

variable {script : Script} {w : World}

/-- The world once the worker has been answered. -/
def World.told (w : World) (c : Call) (answer : c.Answer) : World :=
  { w with history := .asked c answer w.mem.own :: w.history }

theorem exec_update {f : Mem → Mem}
    : (Worker.update f).exec (World.answer script) w = (.ok w.mem, { w with mem := f w.mem }) :=
  rfl

theorem exec_read : Worker.read.exec (World.answer script) w = (.ok w.mem, w) := rfl

theorem exec_orThrow {α : Type} {value : α}
    : (Worker.orThrow (.ok value)).exec (World.answer script) w = (.ok value, w) :=
  rfl

theorem exec_lib {c : Lib} {ret : c.Ret} (returned : script w.history (.lib c) = .ok ret)
    : @exec _ _ _ (no_index c.Ret) _ (World.answer script) (Worker.lib c) w
      = (.ok ret, w.told (.lib c) (.ok ret)) := by
  change (Worker.orThrow (script w.history (.lib c))).exec (World.answer script)
    (w.told (.lib c) (script w.history (.lib c))) = _
  rw [returned]
  rfl

/-- A lock is taken and released. -/
theorem exec_locked {α : Type} {mode : LockMode} {body : Worker α}
    : (Worker.locked mode body).exec (World.answer script) w
      = body.exec (World.answer script) w := by
  change (body.ensure (Worker.unlock mode)).exec (World.answer script) w = _
  rw [exec_ensure]
  rcases body.exec (World.answer script) w with ⟨error | value, w'⟩ <;> rfl

/-- A turn that finds a job runs it. -/
theorem World.afterTurn_front {ptr : JobPtr} {job : Job}
    (front : w.tickets.dequeue.1 = some (ptr, job))
    : w.afterTurn script
      = (((run ptr job).tryCatch fun _ => .pure ()).exec (World.answer script)
          { w with
            tickets := w.tickets.dequeue.2
            history := .began ptr job :: w.history }).2 := by
  have first : w.afterTurn script
      = (exec (World.answer script)
          ((match w.tickets.dequeue.1 with
            | some (ptr, job) => run ptr job
            | none => tick).tryCatch fun _ => .pure ())
          { w with
            tickets := w.tickets.dequeue.2
            history := beganBy w.tickets.dequeue.1 ++ w.history }).2 := rfl
  rw [first, front]
  rfl

/-- A turn that finds no job ticks. -/
theorem World.afterTurn_idle (idle : w.tickets.dequeue.1 = none)
    : w.afterTurn script
      = ((tick.tryCatch fun _ => .pure ()).exec (World.answer script)
          { w with tickets := w.tickets.dequeue.2 }).2 := by
  have first : w.afterTurn script
      = (exec (World.answer script)
          ((match w.tickets.dequeue.1 with
            | some (ptr, job) => run ptr job
            | none => tick).tryCatch fun _ => .pure ())
          { w with
            tickets := w.tickets.dequeue.2
            history := beganBy w.tickets.dequeue.1 ++ w.history }).2 := rfl
  rw [first, idle]
  rfl

theorem exec_now
    : Worker.now.exec (World.answer script) w
      = (.ok (script w.history .now), w.told .now (script w.history .now)) :=
  rfl

theorem exec_emit {script : Script} {event : String} {payload : Json}
    : (Worker.emit event payload).exec (World.answer script) w
      = (script w.history (.emit event payload),
          w.told (.emit event payload) (script w.history (.emit event payload))) := by
  change (Worker.orThrow (script w.history (.emit event payload))).exec (World.answer script)
    (w.told (.emit event payload) (script w.history (.emit event payload))) = _
  cases script w.history (.emit event payload) <;> rfl

/-- A turn leaves what its job's body leaves, with its ticket settled and that told. -/
theorem afterTurn_settled {script : Script} {ptr : JobPtr} {job : Job} {out : Json}
    {state : JobState} {w' : World} (front : w.tickets.dequeue.1 = some (ptr, job))
    (reset : w.mem.locksReset = true) (settled : outcome out = .ok state)
    (body : ((dispatch job).tryCatch fun e => .pure (caught e)).exec (World.answer script)
        { w with tickets := w.tickets.dequeue.2, history := .began ptr job :: w.history }
      = (.ok out, w'))
    : (w.afterTurn script).mem = w'.mem
      ∧ (w.afterTurn script).tickets = (w'.tickets.settle ptr out).2
      ∧ ∃ payload answer m,
          (w.afterTurn script).history
            = .asked (.emit "jobFinished" payload) answer m :: .settled ptr out (.ok state)
              :: w'.history := by
  have answered : (w'.tickets.settle ptr out).1 = .ok state := (Tickets.settle_fst _ _ _).trans settled
  rw [World.afterTurn_front front]
  simp only [run, resetLocksOnce, bind_def, pure_def, exec_bind, exec_tryCatch, exec_read, reset,
    Bool.true_or, if_true, exec]
  simp only [exec_tryCatch, exec] at body
  rw [body]
  simp only [settleJob, bind_def, pure_def, exec_bind, exec, exec_tryCatch, World.answer, answered,
    Worker.orThrow, exec_emit]
  cases script _ (.emit "jobFinished" _) with
  | ok _ => exact ⟨rfl, rfl, _, _, _, rfl⟩
  | error _ => exact ⟨rfl, rfl, _, _, _, rfl⟩

end exec

/-- The world after a client's call. -/
def World.afterClient (w : World) (call : ClientCall) : World :=
  { w with tickets := (call.run w.mem w.tickets).2 }

theorem World.afterClient_mem (w : World) (call : ClientCall) : (w.afterClient call).mem = w.mem := rfl

theorem World.afterClient_start (w : World) (kind : String) (params : Json) (receipt : String)
    : (w.afterClient (.startJob kind params receipt)).tickets
      = (startJob w.mem w.tickets kind params receipt).2 := rfl

theorem Reachable.afterClient {rule : Surroundings} {hasNotify : Bool} {w : World}
    (reach : Reachable rule hasNotify ⟨.pure (), w⟩) (call : ClientCall)
    : Reachable rule hasNotify ⟨.pure (), w.afterClient call⟩ :=
  reach.tail (.move (.other (.client w call)))

/-- The world once the host has set the directory. -/
def World.inDir (w : World) (dir : String) : World :=
  { w with mem := { w.mem with walletsDir := dir } }

theorem Reachable.inDir {rule : Surroundings} {hasNotify : Bool} {w : World}
    (reach : Reachable rule hasNotify ⟨.pure (), w⟩) (dir : String)
    : Reachable rule hasNotify ⟨.pure (), w.inDir dir⟩ :=
  reach.tail (.move (.other (.setWalletsDir w dir)))

-----------------------------------------------------------------------------------------
-- A script
-----------------------------------------------------------------------------------------

/-- A transaction that no event of the history returned. -/
def freshTx (h : History) : PendingTx := ⟨((h.filterMap Event.built?).map PendingTx.id).sum + 1⟩

/-- What a library does that succeeds in everything, for a manager that finds a wallet file or
does not, and wallets of one network. -/
def Lib.succeeds (found : Bool) (network : Int) (h : History) : (c : Lib) → c.Ret
  | .openWallet .. | .createWallet .. | .recoveryWallet .. | .createWalletFromKeys .. =>
      some ⟨h.length⟩
  | .createTransaction .. => some (freshTx h)
  | .walletExists _ => found
  | .closeWallet .. | .verifyWalletPassword .. | .init .. | .refresh _ | .store ..
  | .setPassword .. | .commit .. | .synchronized _ => true
  | .watchOnly _ => false
  | .nettype _ => network
  | .connected _ => (1 : Int)
  | .status _ | .pendingStatus _ => (0 : Int)
  | .managerErrorString | .errorString _ | .address .. | .pendingErrorString _
  | .pendingTxid .. => ""
  | .blockChainHeight _ | .pendingAmount _ | .pendingFee _ | .pendingDust _
  | .pendingTxCount _ => (0 : UInt64)
  | .setDaemonAddress _ | .setRefreshFromBlockHeight .. | .setOffline .. | .setTrustedDaemon ..
  | .setAutoRefreshInterval .. | .startRefresh _ | .pauseRefresh _ | .stop _ | .refreshAsync _
  | .rescanBlockchainAsync _ => ()

/-- Everything succeeds, and the node module always gives the same answer. -/
def Script.succeeding (found : Bool) (network : Int) (node : Json) : Script := fun h c =>
  match c with
  | .lib c => .ok (c.succeeds found network h)
  | .destructor c => c.succeeds found network h
  | .emit .. | .notify .. => .ok ()
  | .resolve _ => .ok node
  | .now => h.length
  | .socketsTo .. => (0 : Nat)
  | .fileExists _ => true
  | .sleep _ | .restrictPermissions _ => ()

theorem exec_succeeds {w : World} {found : Bool} {network : Int} {node : Json} {c : Lib}
    : @exec _ _ _ (no_index c.Ret) _ (World.answer (Script.succeeding found network node))
        (Worker.lib c) w
      = (.ok (c.succeeds found network w.history),
          w.told (.lib c) (.ok (c.succeeds found network w.history))) :=
  exec_lib rfl

theorem Script.succeeding_returns {found : Bool} {network : Int} {node : Json}
    : (Script.succeeding found network node).Follows LibraryReturns := by
  intro h c m
  cases c <;> trivial

/-- A module whose host has set the directory, with one job submitted. -/
def World.withJob (kind : String) (params : Json) : World :=
  ((World.start true).inDir "/wallets").afterClient (.startJob kind params "receipt")

theorem Reachable.withJob {rule : Surroundings} (kind : String) (params : Json)
    : Reachable rule true ⟨.pure (), World.withJob kind params⟩ := by
  apply Reachable.afterClient
  apply Reachable.inDir
  exact .refl

end MoneroWalletCore.Runtime
