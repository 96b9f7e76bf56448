import MoneroWalletCore.Runtime.Histories

/-! Which actions leave an open session alone, and the rule that reduces an invariant of the
worker to the few bodies whose actions do not.
-/

namespace MoneroWalletCore.Runtime

open Program

-----------------------------------------------------------------------------------------
-- Which actions a body takes
-----------------------------------------------------------------------------------------

namespace Worker

variable {allowed : Op → Prop} {α : Type} {thrown : Exn → Prop}

@[simp] theorem within_update {f : Mem → Mem} {normal : Mem → Prop}
    : (update f).Within allowed normal thrown ↔ allowed (.update f) ∧ ∀ m, normal m := Iff.rfl

@[simp] theorem within_read {normal : Mem → Prop}
    : read.Within allowed normal thrown ↔ allowed (.update id) ∧ ∀ m, normal m := Iff.rfl

@[simp] theorem within_orThrow {result : Except Exn α} {normal : α → Prop}
    : (orThrow result).Within allowed normal thrown
      ↔ (∀ value, result = .ok value → normal value)
        ∧ ∀ error, result = .error error → thrown error := by
  cases result <;> simp [orThrow]

private theorem within_answer {normal : α → Prop}
    : (∀ answer : Except Exn α, (orThrow answer).Within allowed normal thrown)
      ↔ (∀ value, normal value) ∧ ∀ error, thrown error := by
  constructor
  · intro holds
    exact ⟨fun value => holds (.ok value), fun error => holds (.error error)⟩
  · intro holds answer
    cases answer with
    | ok value => exact holds.1 value
    | error error => exact holds.2 error

@[simp] theorem within_lib {c : Lib} {normal : c.Ret → Prop}
    : @Within _ _ _ (no_index c.Ret) (lib c) allowed normal thrown
      ↔ allowed (.ask (.lib c)) ∧ (∀ ret, normal ret) ∧ ∀ error, thrown error :=
  and_congr_right fun _ => within_answer

@[simp] theorem within_emit {event : String} {payload : Json} {normal : Unit → Prop}
    : (emit event payload).Within allowed normal thrown
      ↔ allowed (.ask (.emit event payload)) ∧ (∀ ret, normal ret) ∧ ∀ error, thrown error :=
  and_congr_right fun _ => within_answer

@[simp] theorem within_resolve {network : String} {normal : Json → Prop}
    : (resolve network).Within allowed normal thrown
      ↔ allowed (.ask (.resolve network)) ∧ (∀ ret, normal ret) ∧ ∀ error, thrown error :=
  and_congr_right fun _ => within_answer

@[simp] theorem within_notify {network : String} {isOpen : Bool} {normal : Unit → Prop}
    : (Program.call (.ask (.notify network isOpen)) orThrow : Worker Unit).Within allowed normal
        thrown
      ↔ allowed (.ask (.notify network isOpen)) ∧ (∀ ret, normal ret) ∧ ∀ error, thrown error :=
  and_congr_right fun _ => within_answer

@[simp] theorem within_now {normal : Nat → Prop}
    : now.Within allowed normal thrown ↔ allowed (.ask .now) ∧ ∀ t, normal t := Iff.rfl

@[simp] theorem within_sleep {millis : Nat} {normal : Unit → Prop}
    : (sleep millis).Within allowed normal thrown
      ↔ allowed (.ask (.sleep millis)) ∧ ∀ answer, normal answer := Iff.rfl

@[simp] theorem within_socketsTo {hostport : String} {drop : Bool} {normal : Nat → Prop}
    : (socketsTo hostport drop).Within allowed normal thrown
      ↔ allowed (.ask (.socketsTo hostport drop)) ∧ ∀ n, normal n := Iff.rfl

@[simp] theorem within_fileExists {path : String} {normal : Bool → Prop}
    : (fileExists path).Within allowed normal thrown
      ↔ allowed (.ask (.fileExists path)) ∧ ∀ found, normal found := Iff.rfl

@[simp] theorem within_restrictPermissions {path : String} {normal : Unit → Prop}
    : (restrictPermissions path).Within allowed normal thrown
      ↔ allowed (.ask (.restrictPermissions path)) ∧ ∀ answer, normal answer := Iff.rfl

@[simp] theorem within_resumeRefresh {w : Wallet} {normal : Unit → Prop}
    : (resumeRefresh w).Within allowed normal thrown
      ↔ allowed (.ask (.destructor (.startRefresh w))) ∧ ∀ answer, normal answer := Iff.rfl

@[simp] theorem within_unlock {mode : LockMode} {normal : Unit → Prop}
    : (unlock mode).Within allowed normal thrown
      ↔ allowed (.unlock mode) ∧ ∀ answer, normal answer := Iff.rfl

@[simp] theorem within_locked {mode : LockMode} {body : Worker α} {normal : α → Prop}
    : (locked mode body).Within allowed normal thrown
      ↔ allowed (.lock mode)
        ∧ body.Within allowed (fun value => allowed (.unlock mode) ∧ normal value)
            (fun error => allowed (.unlock mode) ∧ thrown error) := by
  have block : (body.ensure (unlock mode)).Within allowed normal thrown
      ↔ body.Within allowed (fun value => allowed (.unlock mode) ∧ normal value)
            (fun error => allowed (.unlock mode) ∧ thrown error) := by
    simp only [within_ensure, within_unlock, forall_const]
  exact and_congr_right fun _ => ⟨fun holds => block.mp (holds ()), fun holds _ => block.mpr holds⟩

end Worker

-----------------------------------------------------------------------------------------
-- Actions that leave the session alone
-----------------------------------------------------------------------------------------

/-- The members that describe the open session. -/
structure Session where
  wallet : Option Wallet
  pendingTx : AList (fun _ : String => PendingTx)
  nextTx : UInt64
  network : String
  route : Route
  dialPeer : String
  torUrl : String

@[simps]
def Mem.session (m : Mem) : Session :=
  {
    wallet := m.wallet
    pendingTx := m.pendingTx
    nextTx := m.nextTx
    network := m.network
    route := m.route
    dialPeer := m.dialPeer
    torUrl := m.torUrl
  }

@[simp] theorem Mem.own_session {m : Mem} : m.own.session = m.session := rfl

/-- The calls that neither make nor end a wallet object, do not say where it dials, do not ask
it what it is, and do not spend. -/
def Lib.quiet : Lib → Bool
  | .openWallet .. | .createWallet .. | .recoveryWallet .. | .createWalletFromKeys ..
  | .closeWallet .. | .nettype _ | .init .. | .setOffline .. | .setTrustedDaemon ..
  | .createTransaction .. | .commit .. => false
  | _ => true

def Call.quiet : Call → Bool
  | .lib c | .destructor c => c.quiet
  | _ => true

/-- An action that assigns only what a relation lets it, or makes one of some calls. -/
def Acting (assigns : Mem → Mem → Prop) (calls : Call → Bool) : Op → Prop
  | .update f => ∀ m : Mem, assigns m (f m)
  | .lock _ | .unlock _ => True
  | .dequeue | .settle .. => False
  | .ask c => calls c

/-- Everything but the label of the session is left as it is. -/
def Mem.SameSession (m m' : Mem) : Prop := m'.session = m.session

def Mem.SameLabelled (m m' : Mem) : Prop := m'.session = m.session ∧ m'.state = m.state

/-- An action that leaves the session as it is, except for its label. -/
abbrev Quiet : Op → Prop := Acting Mem.SameSession Call.quiet

/-- An action that leaves the label as well. -/
abbrev Steady : Op → Prop := Acting Mem.SameLabelled Call.quiet

/-- The calls that only tell of locks and of finished jobs. -/
def Call.reports : Call → Bool
  | .notify .. => true
  | .emit event _ => event = "jobFinished"
  | _ => false

/-- A steady action that makes no other calls. -/
abbrev Reporting : Op → Prop := Acting Mem.SameLabelled Call.reports

theorem Reporting.steady {op : Op} (reporting : Reporting op) : Steady op := by
  cases op with
  | ask c => cases c <;> first | rfl | cases reporting
  | _ => exact reporting

theorem Steady.quiet {op : Op} (steady : Steady op) : Quiet op := by
  cases op with
  | update f => exact fun m => (steady m).1
  | _ => exact steady

theorem Call.quiet_handle {c : Call} {answer : c.Answer} {m : Mem} (quiet : c.quiet = true)
    : (Event.asked c answer m).handle? = none := by
  cases c with
  | lib c => cases c <;> first | rfl | cases quiet
  | _ => rfl

theorem Call.quiet_after {c : Call} {answer : c.Answer} {m : Mem} {w : Wallet} {g : Wallet2}
    (quiet : c.quiet = true)
    : g.after w (.asked c answer m) = g := by
  cases c with
  | lib c => cases c <;> first | rfl | cases quiet
  | _ => rfl

/-- A body that only acts so. -/
abbrev Worker.Steadily {α : Type} (p : Worker α) : Prop :=
  p.Within Steady (fun _ => True) (fun _ => True)

abbrev Worker.Quietly {α : Type} (p : Worker α) : Prop :=
  p.Within Quiet (fun _ => True) (fun _ => True)

theorem Worker.Steadily.quietly {α : Type} {p : Worker α} (steadily : p.Steadily) : p.Quietly :=
  steadily.mono (fun _ => Steady.quiet) (fun _ holds => holds) (fun _ holds => holds)

/-- What a job's run does besides its body is to tell of the locks and of its end. -/
structure Reports (allowed : Op → Prop) : Prop where
  reads : allowed (.update id)
  resets : allowed (.update fun m => { m with locksReset := true })
  notifies : ∀ network isOpen, allowed (.ask (.notify network isOpen))
  tells : ∀ payload, allowed (.ask (.emit "jobFinished" payload))

theorem reporting_reports : Reports Reporting where
  reads _ := ⟨rfl, rfl⟩
  resets _ := ⟨rfl, rfl⟩
  notifies _ _ := rfl
  tells _ := rfl

namespace Reports

variable {allowed : Op → Prop} (reports : Reports allowed)

include reports

/-- What a notification throws is caught. -/
theorem notifyOpen {network : String} {isOpen : Bool}
    : (notifyOpen network isOpen).Within allowed (fun _ => True) (fun _ => False) := by
  simp [Runtime.notifyOpen, within_when, reports.reads, reports.notifies]

theorem resetLocksOnce
    : resetLocksOnce.Within allowed (fun _ => True) (fun _ => False) := by
  have notifies {network : String} {isOpen : Bool} {normal : Unit → Prop} (holds : normal ())
      : (Runtime.notifyOpen network isOpen).Within allowed normal (fun _ => False) :=
    reports.notifyOpen.mono (fun _ reporting => reporting) (fun _ _ => holds)
      (fun _ caught => caught)
  simp [Runtime.resetLocksOnce, Worker.forEach, notifies, reports.reads, reports.resets]

end Reports

theorem notifyOpen_reporting {network : String} {isOpen : Bool}
    : (notifyOpen network isOpen).Within Reporting (fun _ => True) (fun _ => False) :=
  reporting_reports.notifyOpen

theorem notifyOpen_steadily {network : String} {isOpen : Bool}
    : (notifyOpen network isOpen).Steadily :=
  notifyOpen_reporting.mono (fun _ => Reporting.steady) (fun _ holds => holds) (fun _ _ => trivial)

theorem resetLocksOnce_reporting
    : resetLocksOnce.Within Reporting (fun _ => True) (fun _ => False) :=
  reporting_reports.resetLocksOnce

theorem resetLocksOnce_steadily : resetLocksOnce.Steadily :=
  resetLocksOnce_reporting.mono (fun _ => Reporting.steady) (fun _ holds => holds)
    (fun _ _ => trivial)

theorem restrictFiles_steadily {path : String}
    : (restrictFiles path).Within Steady (fun _ => True) (fun _ => False) := by
  simp [restrictFiles, Worker.forEach, within_when, Acting, Call.quiet]

theorem observeWallet_steadily : observeWallet.Steadily := by
  simp only [observeWallet, Worker.Steadily, Worker.within_locked, within_bind, bind_def,
    Worker.within_read]
  refine ⟨trivial, fun m => ⟨rfl, rfl⟩, fun m => ?_⟩
  cases m.wallet <;> simp [Acting, Call.quiet, Lib.quiet]

theorem setState_quietly {s : State} {error : String} : (setState s error).Quietly := by
  simp [setState, Worker.Quietly, Acting, Mem.SameSession, Call.quiet, labelled, Mem.session]

theorem doRescan_quietly : doRescan.Quietly := by
  simp only [doRescan, Worker.Quietly, Worker.within_locked, within_bind, bind_def,
    Worker.within_read]
  refine ⟨trivial, fun m => rfl, fun m => ?_⟩
  have label {s : State} {error : String} {normal : Unit → Prop} (holds : normal ())
      : (setState s error).Within Quiet normal (fun _ => True) :=
    setState_quietly.mono (fun _ quiet => quiet) (fun _ _ => holds) (fun _ _ => trivial)
  cases m.wallet <;> simp [Acting, Call.quiet, Lib.quiet, label]

theorem doChangePassword_steadily {p : Json} : (doChangePassword p).Steadily := by
  simp only [doChangePassword, Worker.Steadily, Worker.within_locked, within_bind, bind_def,
    Worker.within_read]
  refine ⟨trivial, fun m => ⟨rfl, rfl⟩, fun m => ?_⟩
  cases m.wallet with
  | none => simp [Acting]
  | some w => simp [refreshPaused, replacePassword, verifyPassword, Acting,
      Mem.SameLabelled, Call.quiet, Lib.quiet]

theorem followSync_quietly {synced : Bool} : (followSync synced).Quietly := by
  have label {s : State} {error : String} : (setState s error).Quietly := setState_quietly
  simp only [Worker.Quietly] at label
  simp [followSync, Worker.Quietly, label, Acting, Mem.SameSession]

theorem progressed_session {height : UInt64} {now : Nat} (m : Mem)
    : (progressed height now m).session = m.session
      ∧ (progressed height now m).state = m.state := by
  unfold progressed
  split <;> exact ⟨rfl, rfl⟩

theorem ticked_session {height : UInt64} {now : Nat} (m : Mem)
    : (ticked height now m).session = m.session ∧ (ticked height now m).state = m.state := by
  unfold ticked
  dsimp only
  split <;> exact progressed_session m

end MoneroWalletCore.Runtime
