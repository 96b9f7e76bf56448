import MoneroWalletCore.Runtime.Frames

/-! What the worker's bodies are made of. A class of actions that has the calls, the locks and
the sections of a body has the whole body, so a fact about single sections is read off the
class instead of walked through the bodies again.
-/

namespace MoneroWalletCore.Runtime

open Program

variable {α β : Type}

-----------------------------------------------------------------------------------------
-- Classes of actions
-----------------------------------------------------------------------------------------

/-- The calls that some invariants depend on: the looks at the clock, the settings locks, and
the events of finished jobs. -/
def Call.marked : Call → Bool
  | .now | .notify .. => true
  | .emit event _ => event == "jobFinished"
  | _ => false

/-- The calls that wallet2 is not to be refreshing in. -/
def Lib.needsPause : Lib → Bool
  | .createTransaction .. | .commit .. | .setPassword .. => true
  | _ => false

/-- The library calls that neither make a wallet object, nor say where it dials or whether it
refreshes, nor spend or change a password. -/
def Lib.plain : Lib → Bool
  | .openWallet .. | .createWallet .. | .recoveryWallet .. | .createWalletFromKeys .. | .init ..
  | .setOffline .. | .setTrustedDaemon .. | .startRefresh _ | .pauseRefresh _
  | .createTransaction .. | .commit .. | .setPassword .. => false
  | _ => true

def Call.plain : Call → Bool
  | .lib c => c.plain
  | .emit event _ => event != "jobFinished"
  | .sleep _ | .socketsTo .. | .fileExists _ | .restrictPermissions _ => true
  | _ => false

/-- The plain calls, with the locks and the plain reads. -/
class Looking (allowed : Op → Prop) : Prop where
  looks : ∀ c, c.plain = true → allowed (.ask c)
  locks : ∀ mode, allowed (.lock mode)
  unlocks : ∀ mode, allowed (.unlock mode)
  reads : allowed (.update id)

/-- With the section that labels. -/
class Plain (allowed : Op → Prop) : Prop extends Looking allowed where
  labels : ∀ s error, allowed (.update (labelled s error))

/-- The other calls, with the locks and the plain reads. -/
class Asking (allowed : Op → Prop) : Prop where
  asks : ∀ c, c.marked = false → allowed (.ask c)
  locks : ∀ mode, allowed (.lock mode)
  unlocks : ∀ mode, allowed (.unlock mode)
  reads : allowed (.update id)

theorem Call.plain_unmarked {c : Call} (plain : c.plain = true) : c.marked = false := by
  cases c with
  | emit event payload => simpa [Call.plain, Call.marked] using plain
  | _ => first | rfl | cases plain

instance {allowed : Op → Prop} [Asking allowed] : Looking allowed where
  looks c plain := Asking.asks c (Call.plain_unmarked plain)
  locks := Asking.locks
  unlocks := Asking.unlocks
  reads := Asking.reads

/-- The section that drops a transaction's handle. -/
abbrev dropped (handle : String) (m : Mem) : Mem :=
  { m with pendingTx := m.pendingTx.erase handle }

/-- With the sections of a job on an open wallet. -/
class Calm (allowed : Op → Prop) : Prop extends Asking allowed where
  labels : ∀ s error, allowed (.update (labelled s error))
  registers : ∀ pt, allowed (.update (registered pt))
  drops : ∀ handle, allowed (.update (dropped handle))

instance {allowed : Op → Prop} [Calm allowed] : Plain allowed where
  labels := Calm.labels

/-- With what tells of the settings locks. -/
class Telling (allowed : Op → Prop) : Prop extends Calm allowed where
  notifies : ∀ network isOpen, allowed (.ask (.notify network isOpen))
  resets : allowed (.update fun m => { m with locksReset := true })

/-- With the sections of a tick and of a move. -/
class Ticking (allowed : Op → Prop) : Prop extends Calm allowed where
  times : allowed (.ask .now)
  ticks : ∀ height now, allowed (.update (ticked height now))
  moves : ∀ node error now, allowed (.update (moved node error now))

/-- The section that puts a wallet object in place. -/
abbrev withWallet (w : Wallet) (m : Mem) : Mem := { m with wallet := some w }

/-- Every section of the members. -/
class Sections (allowed : Op → Prop) : Prop extends Telling allowed, Ticking allowed where
  publishes : ∀ w, allowed (.update (withWallet w))
  describes : ∀ o node addr now, allowed (.update (described o node addr now))
  takes : allowed (.update withoutWallet)
  forgets : allowed (.update forgotten)

/-- A body that stays within a class, however it is left. -/
def Worker.Stays (allowed : Op → Prop) (p : Worker α) : Prop :=
  p.Within allowed (fun _ => True) (fun _ => True)

namespace Worker.Stays

variable {allowed : Op → Prop}

theorem value {value : α} : Worker.Stays allowed (.pure value : Worker α) := trivial

theorem bind {p : Worker α} {next : α → Worker β} (first : p.Stays allowed)
    (rest : ∀ value, (next value).Stays allowed)
    : Worker.Stays allowed (p.bind next) :=
  within_bind.mpr (first.mono (fun _ stays => stays) (fun value _ => rest value)
    (fun _ _ => trivial))

theorem guarded {p : Worker α} {handler : Exn → Worker α} (block : p.Stays allowed)
    (handles : ∀ error, (handler error).Stays allowed)
    : Worker.Stays allowed (p.tryCatch handler) :=
  within_tryCatch.mpr (block.mono (fun _ stays => stays) (fun _ _ => trivial)
    (fun error _ => handles error))

theorem ensure {p : Worker α} {final : Worker Unit} (block : p.Stays allowed)
    (destructor : final.Stays allowed)
    : Worker.Stays allowed (p.ensure final) := by
  have finish {normal : Prop} (holds : normal)
      : final.Within allowed (fun _ => normal) (fun _ => True) :=
    destructor.mono (fun _ stays => stays) (fun _ _ => holds) (fun _ _ => trivial)
  exact within_ensure.mpr (block.mono (fun _ stays => stays) (fun _ _ => finish trivial)
    (fun _ _ => finish trivial))

theorem ite {condition : Prop} {decided : Decidable condition} {p q : Worker α}
    (yes : p.Stays allowed) (no : q.Stays allowed)
    : Worker.Stays allowed (if condition then p else q) := by
  split
  · exact yes
  · exact no

theorem when {condition : Bool} {p : Worker Unit} (block : p.Stays allowed)
    : Worker.Stays allowed (Program.when condition p) :=
  within_when.mpr ⟨fun _ => block, fun _ => trivial⟩

theorem update {f : Mem → Mem} (assigns : allowed (.update f))
    : (Worker.update f).Stays allowed :=
  ⟨assigns, fun _ => trivial⟩

theorem orThrow {result : Except Exn α} : (Worker.orThrow result).Stays allowed := by
  cases result <;> trivial

theorem tell {payload : Json} (tells : allowed (.ask (.emit "jobFinished" payload)))
    : (Worker.emit "jobFinished" payload).Stays allowed :=
  Worker.within_emit.mpr ⟨tells, fun _ => trivial, fun _ => trivial⟩

theorem andThen {stage : Worker (Stage α)} {next : α → Worker Json}
    (first : stage.Stays allowed) (rest : ∀ value, (next value).Stays allowed)
    : Worker.Stays allowed (Runtime.andThen stage next) := by
  apply bind first
  intro ended
  cases ended with
  | leave out => exact .value
  | go value => exact rest value

theorem forEach {body : α → Worker Unit} {items : List α} (each : ∀ item, (body item).Stays allowed)
    : (Worker.forEach body items).Stays allowed := by
  induction items with
  | nil => trivial
  | cons item rest ih => exact bind (each item) fun _ => ih

theorem call {c : Lib} (calls : allowed (.ask (.lib c))) : (Worker.lib c).Stays allowed :=
  Worker.within_lib.mpr ⟨calls, fun _ => trivial, fun _ => trivial⟩

section Looking

variable [Looking allowed]

theorem read : Worker.read.Stays allowed := update Looking.reads

/-- A plain library call. -/
theorem look {c : Lib} (plain : c.plain = true) : (Worker.lib c).Stays allowed :=
  call (Looking.looks _ plain)

theorem emit {event : String} {payload : Json} (plain : (event != "jobFinished") = true)
    : (Worker.emit event payload).Stays allowed :=
  Worker.within_emit.mpr ⟨Looking.looks _ plain, fun _ => trivial, fun _ => trivial⟩

theorem perform {c : Call} (plain : c.plain = true)
    : Worker.Stays allowed (Program.perform (Op.ask c)) :=
  ⟨Looking.looks c plain, fun _ => trivial⟩

theorem locked {mode : LockMode} {body : Worker α} (stays : body.Stays allowed)
    : (Worker.locked mode body).Stays allowed :=
  ⟨Looking.locks _, fun _ => ensure stays ⟨Looking.unlocks _, fun _ => trivial⟩⟩

theorem notify (notifies : ∀ network isOpen, allowed (.ask (.notify network isOpen)))
    {network : String} {isOpen : Bool}
    : Worker.Stays allowed (Runtime.notifyOpen network isOpen) := by
  refine bind read fun _ => when (guarded ?_ fun _ => .value)
  exact Worker.within_notify.mpr ⟨notifies _ _, fun _ => trivial, fun _ => trivial⟩

end Looking

theorem setState [Plain allowed] {s : State} {error : String}
    : Worker.Stays allowed (Runtime.setState s error) :=
  bind (update (Plain.labels s error)) fun _ => emit rfl

section Asking

variable [Asking allowed]

theorem lib {c : Lib} : (Worker.lib c).Stays allowed := call (Asking.asks _ rfl)

theorem resolve {network : String} : (Worker.resolve network).Stays allowed :=
  Worker.within_resolve.mpr ⟨Asking.asks _ rfl, fun _ => trivial, fun _ => trivial⟩

theorem refreshPaused {w : Wallet} {body : Worker α} (stays : body.Stays allowed)
    : Worker.Stays allowed (Runtime.refreshPaused w body) :=
  bind lib fun _ => ensure stays ⟨Asking.asks _ rfl, fun _ => trivial⟩

end Asking

theorem notifyOpen [Telling allowed] {network : String} {isOpen : Bool}
    : Worker.Stays allowed (Runtime.notifyOpen network isOpen) :=
  notify Telling.notifies

theorem now [Ticking allowed] : Worker.now.Stays allowed := ⟨Ticking.times, fun _ => trivial⟩

end Worker.Stays

open Worker

variable {allowed : Op → Prop}

-----------------------------------------------------------------------------------------
-- Bodies of plain calls
-----------------------------------------------------------------------------------------

section Looking

variable [Looking allowed]

theorem doDispose_stays {p : Json} (drops : ∀ handle, allowed (.update (dropped handle)))
    : (doDispose p).Stays allowed := by
  refine .locked (.bind .orThrow fun handle => .bind .read fun m => ?_)
  cases m.pendingTx.lookup handle with
  | none => exact .value
  | some pt => exact .bind (.update (drops handle)) fun _ => .value

theorem keepTx_stays {dst : String} {pt? : Option PendingTx}
    (registers : ∀ pt, allowed (.update (registered pt)))
    : (keepTx dst pt?).Stays allowed := by
  cases pt? with
  | none => exact .value
  | some pt =>
      refine .bind (.look rfl) fun _ => .ite (.bind (.look rfl) fun _ => .value) ?_
      refine .bind (.update (registers pt)) fun _ => .bind (.look rfl) fun _ =>
        .bind (.look rfl) fun _ => .bind (.look rfl) fun _ => ?_
      exact .bind (.look rfl) fun _ => .bind (.look rfl) fun _ => .value

theorem buildTx_stays {w : Wallet} {p : Json}
    (spends : ∀ c : Lib, c.needsPause = true → allowed (.ask (.lib c)))
    (registers : ∀ pt, allowed (.update (registered pt)))
    : (buildTx w p).Stays allowed := by
  refine .bind (.look rfl) fun _ => .ite .value (.bind .orThrow fun text => ?_)
  cases (parseAtomic text).filter (· ≠ 0) with
  | none => exact .value
  | some amount =>
      exact .bind .orThrow fun _ => .bind .read fun _ => .ite .value
        (.bind .orThrow fun _ => .bind .orThrow fun _ => .bind .orThrow fun _ =>
          .bind (.call (spends _ rfl)) fun _ => keepTx_stays registers)

/-- The body of a commit. -/
theorem commitTx_stays {w : Wallet} {p : Json}
    (spends : ∀ c : Lib, c.needsPause = true → allowed (.ask (.lib c)))
    (drops : ∀ handle, allowed (.update (dropped handle)))
    : Worker.Stays allowed (do
        let handle ← Worker.orThrow (p.valueString "txHandle" "")
        let m ← Worker.read
        match m.pendingTx.lookup handle with
        | none => Pure.pure (err "unknown txHandle")
        | some pt => relayTx w handle pt) := by
  refine .bind .orThrow fun handle => .bind .read fun m => ?_
  cases m.pendingTx.lookup handle with
  | none => exact .value
  | some pt =>
      exact .bind (.look rfl) fun _ => .bind (.call (spends _ rfl)) fun _ => .ite
        (.bind (.update (drops handle)) fun _ => .bind (.look rfl) fun _ => .value)
        (.bind (.look rfl) fun _ => .value)

theorem replacePassword_stays {w : Wallet} {p : Json}
    (spends : ∀ c : Lib, c.needsPause = true → allowed (.ask (.lib c)))
    : (replacePassword w p).Stays allowed := by
  refine .bind .orThrow fun _ => .bind (.bind .read fun _ => .look rfl) fun _ => .ite .value ?_
  exact .bind .orThrow fun _ => .bind (.call (spends _ rfl)) fun _ =>
    .ite (.bind (.look rfl) fun _ => .value) (.bind (.look rfl) fun _ => .value)

theorem observeWallet_stays : observeWallet.Stays allowed := by
  refine .locked (.bind .read fun m => ?_)
  cases m.wallet with
  | none => exact .value
  | some w => exact .bind (.look rfl) fun _ => .bind (.look rfl) fun _ => .value

theorem restrictFiles_stays {path : String} : (restrictFiles path).Stays allowed :=
  .forEach fun _ => .bind (.perform rfl) fun _ => .when (.perform rfl)

theorem resetLocksOnce_stays_of
    (notifies : ∀ network isOpen, allowed (.ask (.notify network isOpen)))
    (resets : allowed (.update fun m => { m with locksReset := true }))
    : resetLocksOnce.Stays allowed :=
  .bind .read fun _ => .ite .value (.bind .read fun _ => .ite .value
    (.bind (.update resets) fun _ => .forEach fun _ => .notify notifies))

end Looking

section Plain

variable [Plain allowed]

theorem doRescan_stays : doRescan.Stays allowed := by
  refine .bind (.locked (.bind .read fun m => ?_)) fun _ =>
    .ite (.bind .setState fun _ => .value) .value
  cases m.wallet with
  | none => exact .value
  | some w => exact .bind (.look rfl) fun _ => .value

theorem followSync_stays {synced : Bool} : (followSync synced).Stays allowed :=
  .bind .read fun _ => .ite .setState (.ite .setState .value)

theorem refuseOpen_stays {label msg : String}
    : Worker.Stays allowed (refuseOpen label msg : Worker (Stage α)) :=
  .bind .setState fun _ => .value

theorem obtainWallet_stays_of {kind : String} {p : Json} {o : OpenParams} {path : String}
    {nettype : Int} (made : (makeWallet kind p o.password path nettype).Stays allowed)
    : (obtainWallet kind p o path nettype).Stays allowed :=
  .bind (.look rfl) fun _ =>
    .ite refuseOpen_stays (.ite refuseOpen_stays (.bind made fun _ => .value))

theorem checkWallet_stays {network : String} {nettype : Int} {w? : Option Wallet}
    : (checkWallet network nettype w?).Stays allowed := by
  cases w? with
  | none => exact .bind (.look rfl) fun _ => refuseOpen_stays
  | some w =>
      refine .bind (.look rfl) fun _ => .ite ?_ (.bind (.look rfl) fun _ => .ite ?_ .value)
      · exact .bind (.look rfl) fun _ => .bind (.look rfl) fun _ => refuseOpen_stays
      · exact .bind (.look rfl) fun _ => refuseOpen_stays

theorem awaitConnected_stays {w : Wallet} {looks : Nat} : (awaitConnected w looks).Stays allowed := by
  induction looks with
  | zero => exact .value
  | succ looks ih => exact .bind (.look rfl) fun _ => .ite .value (.bind (.perform rfl) fun _ => ih)

theorem connectDaemon_stays {plan : Plan} {w : Wallet} : (connectDaemon plan w).Stays allowed :=
  .ite
    (.bind awaitConnected_stays fun _ => .ite (.bind (.look rfl) fun _ => refuseOpen_stays) .value)
    .value

theorem announceWallet_stays_of {o : OpenParams} {path addr : String} {w : Wallet}
    (notifies : ∀ network isOpen, allowed (.ask (.notify network isOpen)))
    : (announceWallet o path addr w).Stays allowed :=
  .bind (.notify notifies) fun _ => .bind restrictFiles_stays fun _ =>
    .bind .setState fun _ => .bind (.look rfl) fun _ => .value

theorem releaseWallet_stays_of {w : Wallet}
    (notifies : ∀ network isOpen, allowed (.ask (.notify network isOpen)))
    (forgets : allowed (.update forgotten))
    : (releaseWallet w).Stays allowed :=
  .bind (.look rfl) fun _ => .bind (.look rfl) fun _ => .bind (.update forgets) fun _ =>
    .bind (.notify notifies) fun _ => .bind .setState fun _ => .value

end Plain

-----------------------------------------------------------------------------------------
-- Transactions and moves, which label nothing until they end
-----------------------------------------------------------------------------------------

section Asking

variable [Asking allowed]

theorem sending_stays {body : Wallet → Worker Json} (stays : ∀ w, (body w).Stays allowed)
    : (sending body).Stays allowed := by
  refine .locked (.bind .read fun m => ?_)
  cases m.wallet with
  | none => exact .value
  | some w =>
      exact .bind (.bind .read fun _ => .value) fun _ => .ite .value (.refreshPaused (stays w))

theorem doCreateTransaction_stays {p : Json}
    (registers : ∀ pt, allowed (.update (registered pt)))
    : (doCreateTransaction p).Stays allowed :=
  sending_stays fun _ => buildTx_stays (fun _ _ => Asking.asks _ rfl) registers

theorem doCommit_stays {p : Json} (drops : ∀ handle, allowed (.update (dropped handle)))
    : (doCommit p).Stays allowed :=
  sending_stays fun _ => commitTx_stays (fun _ _ => Asking.asks _ rfl) drops

theorem doChangePassword_stays {p : Json} : (doChangePassword p).Stays allowed := by
  refine .locked (.bind .read fun m => ?_)
  cases m.wallet with
  | none => exact .value
  | some w => exact .refreshPaused (replacePassword_stays fun _ _ => Asking.asks _ rfl)

theorem goOffline_stays {abandon : Bool} {node : Json} : (goOffline abandon node).Stays allowed := by
  refine .locked (.bind .read fun m => ?_)
  cases m.wallet with
  | none => exact .value
  | some w =>
      refine .bind .lib fun _ => .bind .lib fun _ => .bind (.when ?_) fun _ => .bind .lib fun _ =>
        .bind .lib fun _ => .value
      unfold dropCatchUp
      split
      · exact .bind (.perform rfl) fun _ => .value
      · exact .value

theorem dialTor_stays {node : Json} : (dialTor node).Stays allowed := by
  refine .locked (.bind .read fun m => ?_)
  cases m.wallet with
  | none => exact .value
  | some w =>
      refine .ite (.bind .lib fun _ => .ite ?_ (.bind .lib fun _ => .value)) .value
      exact .bind .lib fun _ => .bind .lib fun _ => .bind .lib fun _ => .bind .lib fun _ =>
        .bind .lib fun _ => .value

end Asking

-----------------------------------------------------------------------------------------
-- An open-like job before it publishes
-----------------------------------------------------------------------------------------

section Calm

variable [Calm allowed]

theorem makeWallet_stays {kind : String} {p : Json} {password path : String} {nettype : Int}
    : (makeWallet kind p password path nettype).Stays allowed :=
  .ite .lib
    (.ite (.bind .orThrow fun _ => .lib)
      (.ite (.bind .orThrow fun _ => .bind .orThrow fun _ => .bind .orThrow fun _ => .lib)
        (.bind .orThrow fun _ => .bind .orThrow fun _ => .bind .orThrow fun _ =>
          .bind .orThrow fun _ => .lib)))

theorem obtainWallet_stays {kind : String} {p : Json} {o : OpenParams} {path : String}
    {nettype : Int}
    : (obtainWallet kind p o path nettype).Stays allowed :=
  obtainWallet_stays_of makeWallet_stays

theorem initWallet_stays {kind network : String} {plan : Plan} {w : Wallet}
    : (initWallet kind network plan w).Stays allowed :=
  .bind (.when .lib) fun _ => .bind .lib fun _ =>
    .ite .value (.bind .lib fun _ => .bind .lib fun _ => refuseOpen_stays)

theorem waitOffline_stays {plan : Plan} {w : Wallet} : (waitOffline plan w).Stays allowed :=
  .when .lib

theorem trustDaemon_stays {plan : Plan} {w : Wallet} : (trustDaemon plan w).Stays allowed :=
  .ite (.bind .orThrow fun _ => .lib) (.bind .value fun _ => .lib)

theorem startWallet_stays {plan : Plan} {w : Wallet} : (startWallet plan w).Stays allowed :=
  .bind .lib fun _ => .bind (.when (.bind .lib fun _ => .lib)) fun _ => .lib

end Calm

section Telling

variable [Telling allowed]

theorem resetLocksOnce_stays : resetLocksOnce.Stays allowed :=
  resetLocksOnce_stays_of Telling.notifies Telling.resets

theorem announceWallet_stays {o : OpenParams} {path addr : String} {w : Wallet}
    : (announceWallet o path addr w).Stays allowed :=
  announceWallet_stays_of Telling.notifies

/-- What comes after the handle has been taken, but for the section that forgets. -/
theorem releaseWallet_stays {w : Wallet} (forgets : allowed (.update forgotten))
    : (releaseWallet w).Stays allowed :=
  releaseWallet_stays_of Telling.notifies forgets

end Telling

-----------------------------------------------------------------------------------------
-- The tick
-----------------------------------------------------------------------------------------

section Ticking

variable [Ticking allowed]

theorem recordMove_stays {node : Json} {error : String} : (recordMove node error).Stays allowed :=
  .bind .now fun _ => .bind (.update (Ticking.moves _ _ _)) fun _ => .setState

theorem moveWith_stays {abandon : Bool} {node : Json} {from_ : Route}
    : (moveWith abandon node from_).Stays allowed := by
  refine .ite .value (.bind goOffline_stays fun _ => .ite .value ?_)
  refine .bind dialTor_stays fun dialled => ?_
  cases dialled with
  | none => exact .value
  | some error => exact recordMove_stays

theorem moveToTor_stays {abandon : Bool} {resolved : Option Json}
    : (moveToTor abandon resolved).Stays allowed := by
  refine .bind .read fun m => ?_
  cases resolved with
  | some node => exact moveWith_stays
  | none => exact .bind .resolve fun _ => moveWith_stays

theorem followRoute_stays {synced : Bool} {now : Nat} {m : Mem}
    : (followRoute synced now m).Stays allowed :=
  .ite moveToTor_stays (.ite (.bind .resolve fun _ => .when moveToTor_stays) .value)

/-- What a tick does once the locks are reset. -/
theorem follows_stays {seen : Option (Bool × UInt64)}
    : Worker.Stays allowed
        (match seen with
          | none => Pure.pure ()
          | some (synced, height) => do
              let now ← Worker.now
              let m ← Worker.update (ticked height now)
              followRoute synced now (progressed height now m)
              followSync synced) := by
  cases seen with
  | none => exact .value
  | some seen =>
      exact .bind .now fun _ => .bind (.update (Ticking.ticks _ _)) fun _ =>
        .bind followRoute_stays fun _ => followSync_stays

theorem tick_stays [Telling allowed] : tick.Stays allowed :=
  .bind resetLocksOnce_stays fun _ => .bind observeWallet_stays fun _ => follows_stays

end Ticking

-----------------------------------------------------------------------------------------
-- Whole jobs
-----------------------------------------------------------------------------------------

section Sections

variable [Sections allowed]

theorem publishWallet_stays {o : OpenParams} {plan : Plan} {path addr : String} {w : Wallet}
    : (publishWallet o plan path addr w).Stays allowed :=
  .bind (.locked (.update (Sections.publishes w))) fun _ => .bind .now fun _ =>
    .bind (.update (Sections.describes _ _ _ _)) fun _ => announceWallet_stays

theorem attachWallet_stays {o : OpenParams} {plan : Plan} {path : String} {w : Wallet}
    : (attachWallet o plan path w).Stays allowed :=
  .bind waitOffline_stays fun _ => .bind trustDaemon_stays fun _ =>
    .andThen connectDaemon_stays fun _ => .bind startWallet_stays fun _ => publishWallet_stays

theorem openWith_stays {kind : String} {p : Json} {o : OpenParams} {plan : Plan}
    : (openWith kind p o plan).Stays allowed := by
  refine .bind (.locked (.bind .read fun _ => .value)) fun _ => .ite .value ?_
  refine .bind .setState fun _ => .bind .read fun _ => .bind .lib fun _ => ?_
  exact .andThen obtainWallet_stays fun _ => .andThen checkWallet_stays fun _ =>
    .andThen initWallet_stays fun _ => attachWallet_stays

theorem doOpenLike_stays {kind : String} {p : Json} : (doOpenLike kind p).Stays allowed := by
  refine .bind .orThrow fun _ => .ite .value (.ite .value ?_)
  refine .bind .resolve fun _ => .bind .orThrow fun policy => ?_
  cases policy with
  | leave out => exact .value
  | go plan => exact openWith_stays

theorem takeWallet_stays : takeWallet.Stays allowed := by
  refine .locked (.bind .read fun m => ?_)
  cases m.wallet with
  | none => exact .value
  | some w => exact .bind .setState fun _ => .bind (.update Sections.takes) fun _ => .value

theorem doClose_stays : doClose.Stays allowed := by
  refine .bind takeWallet_stays fun held => ?_
  cases held with
  | none => exact .value
  | some w => exact releaseWallet_stays Sections.forgets

theorem dispatch_stays {job : Job} : (dispatch job).Stays allowed :=
  .ite doOpenLike_stays (.ite doClose_stays (.ite doRescan_stays
    (.ite (doCreateTransaction_stays Calm.registers) (.ite (doCommit_stays Calm.drops)
      (.ite (doDispose_stays Calm.drops) (.ite doChangePassword_stays .value))))))

theorem run_stays {ptr : JobPtr} {job : Job} (settles : ∀ out, allowed (.settle ptr out))
    (tells : ∀ payload, allowed (.ask (.emit "jobFinished" payload)))
    : (run ptr job).Stays allowed := by
  refine .bind resetLocksOnce_stays fun _ => .bind (.guarded dispatch_stays fun _ => .value)
    fun out => ?_
  exact .bind ⟨settles out, fun _ => Worker.Stays.orThrow⟩ fun _ =>
    .guarded (.tell (tells _)) fun _ => .value

theorem turn_stays (dequeues : allowed .dequeue) (settles : ∀ ptr out, allowed (.settle ptr out))
    (tells : ∀ payload, allowed (.ask (.emit "jobFinished" payload)))
    : turn.Stays allowed := by
  refine .bind ⟨dequeues, fun _ => trivial⟩ fun front => .guarded ?_ fun _ => .value
  cases front with
  | none => exact tick_stays
  | some front => exact run_stays (settles front.1) tells

end Sections

end MoneroWalletCore.Runtime
