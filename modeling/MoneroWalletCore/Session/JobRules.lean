import MoneroWalletCore.Runtime.Sections
import MoneroWalletCore.Session.OpenStages

/-! Rules for the jobs on an open wallet: a close takes the handle away and then forgets the
session, and a send runs its body behind the gate, with the refresh paused.
-/

namespace MoneroWalletCore.Runtime

open Program

variable {rule : Surroundings} {Inv : View → Prop}

-----------------------------------------------------------------------------------------
-- Opening
-----------------------------------------------------------------------------------------

theorem announceWallet_quietly {o : OpenParams} {path addr : String} {w : Wallet}
    : (announceWallet o path addr w).Quietly := by
  have labels : Quiet (.update (labelled .syncing "")) := fun _ => rfl
  have reads : Quiet (.update id) := fun _ => rfl
  simp [announceWallet, notifyOpen, restrictFiles, Worker.forEach, setState, within_when, labels,
    reads, Acting, Call.quiet, Lib.quiet]

/-- Publishing keeps an invariant when the section that describes the wallet establishes it. -/
theorem publishWallet_keeps (quiet : ActionsKeep rule Quiet Inv) {v : View} {o : OpenParams}
    {plan : Plan} {path addr : String} {w : Wallet}
    (establishes : ∀ (m seen : Mem) now, m.session = { v.mem.session with wallet := some w } →
      seen.session = m.session →
      Inv (View.at (described o plan.node addr now m) (.asked .now now seen :: v.history)))
    : (publishWallet o plan path addr w).wp (View.act rule) (fun _ => Inv) (fun _ => Inv) v := by
  simp only [publishWallet, bind_def, wp_bind, Worker.wp_locked, Worker.wp_update, Worker.wp_now]
  intro _ now _ _
  exact quiet.body announceWallet_quietly _ (establishes _ _ now rfl rfl)

-----------------------------------------------------------------------------------------
-- Closing
-----------------------------------------------------------------------------------------

/-- No wallet object is put in place or taken away, nor a transaction. -/
def Mem.SameObjects (m m' : Mem) : Prop :=
  m'.wallet = m.wallet ∧ m'.pendingTx = m.pendingTx ∧ m'.nextTx = m.nextTx

/-- An action of a close after it has taken the handle. -/
abbrev Forgetting : Op → Prop := Acting Mem.SameObjects Call.attempts

theorem Attempting.forgetting {op : Op} (attempting : Attempting op) : Forgetting op := by
  cases op with
  | update f =>
      intro m
      have same := attempting m
      exact ⟨congrArg Session.wallet same, congrArg Session.pendingTx same,
        congrArg Session.nextTx same⟩
  | _ => exact attempting

theorem releaseWallet_forgets {w : Wallet}
    : (releaseWallet w).Within Forgetting (fun _ => True) (fun _ => True) := by
  have forgets : Forgetting (.update forgotten) := fun _ => ⟨rfl, rfl, rfl⟩
  have labels : Forgetting (.update (labelled .noWallet "")) := fun _ => ⟨rfl, rfl, rfl⟩
  have reads : Forgetting (.update id) := fun _ => ⟨rfl, rfl, rfl⟩
  simp [releaseWallet, notifyOpen, setState, within_when, forgets, labels, reads, Acting,
    Call.attempts, Lib.attempts]

/-- A close keeps an invariant when its label and its store do, which is made once the handle has
been taken, and what comes after it does with no wallet open. -/
theorem doClose_keeps_stored (labels : (setState .closing "").Keeps rule Inv)
    (stores : ∀ (v : View) (m : Mem) w answer, Inv v → m.session = v.mem.session →
      rule v.history (.asked (.lib (.store w "")) answer (withoutWallet m).own) →
      Inv (View.at (withoutWallet m)
        (.asked (.lib (.store w "")) answer (withoutWallet m).own :: v.history)))
    (forgets : ActionsKeep rule Forgetting (fun v => Inv v ∧ v.mem.wallet = none))
    : doClose.Keeps rule Inv := by
  intro v holds
  simp only [doClose, takeWallet, bind_def, wp_bind, Worker.wp_locked, Worker.wp_read]
  intro others
  cases (v.mem.under others).wallet with
  | none => exact holds
  | some w =>
      simp only [wp_bind]
      apply wp_mono (labels v holds)
      · intro _ v' kept
        simp only [Worker.wp_update, pure_def, wp_pure]
        intro others'
        -- the rest of the close, once the wallet has been stored
        have rest := (Worker.within_lib.mp (within_bind.mp (@releaseWallet_forgets w))).2.1
        refine wp_bind.mpr (Worker.wp_lib.mpr ⟨fun ok allowed => ?_, fun _ allowed => ?_⟩)
        · have stored := stores v' (v'.mem.under others') w (.ok ok) kept rfl allowed
          exact wp_mono (forgets.body (rest ok) _ ⟨stored, rfl⟩)
            (fun _ _ both => both.1) (fun _ _ both => both.1)
        · exact stores v' (v'.mem.under others') w _ kept rfl allowed
      · exact fun _ _ kept => kept

/-- The same when taking the handle keeps the invariant by itself. -/
theorem doClose_keeps_by (labels : (setState .closing "").Keeps rule Inv)
    (takes : ∀ (v : View) (m : Mem), Inv v → m.session = v.mem.session →
      Inv (View.at (withoutWallet m) v.history))
    (forgets : ActionsKeep rule Forgetting (fun v => Inv v ∧ v.mem.wallet = none))
    : doClose.Keeps rule Inv := by
  apply doClose_keeps_stored labels _ forgets
  intro v m _ _ holds same allowed
  have gone : Inv (View.at (withoutWallet m) v.history)
      ∧ (View.at (withoutWallet m) v.history).mem.wallet = none :=
    ⟨takes v m holds same, rfl⟩
  exact (forgets.ask rfl allowed gone).1

theorem doClose_keeps (quiet : ActionsKeep rule Quiet Inv)
    (takes : ∀ (v : View) (m : Mem), Inv v → m.session = v.mem.session →
      Inv (View.at (withoutWallet m) v.history))
    (forgets : ActionsKeep rule Forgetting (fun v => Inv v ∧ v.mem.wallet = none))
    : doClose.Keeps rule Inv :=
  doClose_keeps_by (quiet.body setState_quietly) takes forgets

-----------------------------------------------------------------------------------------
-- Sending
-----------------------------------------------------------------------------------------

/-- A send refuses, or runs its body on an open wallet whose sends need not wait, between the
pause of the refresh and its restart. -/
theorem wp_sending {body : Wallet → Worker Json} {normal : Json → View → Prop}
    {thrown : Exn → View → Prop} {v : View}
    (refuses : ∀ msg, v.mem.wallet = none ∨ ¬(v.mem.route = .direct ∨ v.mem.route = .tor) →
      normal (err msg) v)
    (unpaused : ∀ w error, rule v.history (.asked (.lib (.pauseRefresh w)) (.error error) v.mem) →
      thrown error (v.push (.asked (.lib (.pauseRefresh w)) (.error error) v.mem)))
    (sends : ∀ w, v.mem.wallet = some w → v.mem.route = .direct ∨ v.mem.route = .tor →
      rule v.history (.asked (.lib (.pauseRefresh w)) (.ok ()) v.mem) →
      (body w).wp (View.act rule)
        (fun out v' => rule v'.history (.asked (.destructor (.startRefresh w)) () v'.mem) →
          normal out (v'.push (.asked (.destructor (.startRefresh w)) () v'.mem)))
        (fun error v' => rule v'.history (.asked (.destructor (.startRefresh w)) () v'.mem) →
          thrown error (v'.push (.asked (.destructor (.startRefresh w)) () v'.mem)))
        (v.push (.asked (.lib (.pauseRefresh w)) (.ok ()) v.mem)))
    : (sending body).wp (View.act rule) normal thrown v := by
  simp only [sending, bind_def, wp_bind, Worker.wp_locked, Worker.wp_read]
  intro others
  cases isOpen : (v.mem.under others).wallet with
  | none => exact refuses _ (.inl isOpen)
  | some w =>
      simp only [sendsWaitForTor, bind_def, wp_bind, Worker.wp_read, wp_ite, pure_def, wp_pure]
      refine fun others' => ⟨fun waits => refuses _ (.inr fun ready => ?_), fun ready => ?_⟩
      · rcases ready with direct | tor
        · simp [direct] at waits
        · simp [tor] at waits
      have route : v.mem.route = .direct ∨ v.mem.route = .tor := by
        cases at_ : v.mem.route <;> simp_all
      simp only [refreshPaused, bind_def, wp_bind, wp_ensure, Worker.wp_lib,
        Worker.wp_resumeRefresh]
      refine ⟨fun _ allowed => ?_, fun error allowed => unpaused w error allowed⟩
      exact wp_mono (sends w isOpen route allowed) (fun _ _ kept _ => kept) (fun _ _ kept _ => kept)

/-- A send keeps an invariant when its body does on an open wallet whose sends need not wait. -/
theorem sending_keeps {body : Wallet → Worker Json} (quiet : ActionsKeep rule Quiet Inv)
    (sends : ∀ v w, Inv v → v.mem.wallet = some w → v.mem.route = .direct ∨ v.mem.route = .tor →
      (body w).wp (View.act rule) (fun _ => Inv) (fun _ => Inv) v)
    : (sending body).Keeps rule Inv := by
  intro v holds
  refine wp_sending (fun _ _ => holds) (fun w error allowed => quiet.ask rfl allowed holds) ?_
  intro w isOpen route allowed
  apply wp_mono (sends _ w (quiet.ask rfl allowed holds) isOpen route)
  · exact fun _ _ kept allowed' => quiet.ask rfl allowed' kept
  · exact fun _ _ kept allowed' => quiet.ask rfl allowed' kept

-----------------------------------------------------------------------------------------
-- Transactions
-----------------------------------------------------------------------------------------

/-- Everything of the session but its transactions is left as it is. -/
def Mem.SamePlace (m m' : Mem) : Prop :=
  m'.wallet = m.wallet ∧ m'.network = m.network ∧ m'.route = m.route
    ∧ m'.dialPeer = m.dialPeer ∧ m'.torUrl = m.torUrl

/-- An action of a job on transactions, apart from the calls that spend. -/
abbrev Trading : Op → Prop := Acting Mem.SamePlace Call.quiet

theorem Quiet.trading {op : Op} (quiet : Quiet op) : Trading op := by
  cases op with
  | update f =>
      intro m
      have same := quiet m
      exact ⟨congrArg Session.wallet same, congrArg Session.network same,
        congrArg Session.route same, congrArg Session.dialPeer same,
        congrArg Session.torUrl same⟩
  | _ => exact quiet

theorem keepTx_trades {dst : String} {pt? : Option PendingTx}
    : (keepTx dst pt?).Within Trading (fun _ => True) (fun _ => True) := by
  cases pt? with
  | none => trivial
  | some pt =>
      have registers : Trading (.update (registered pt)) := fun _ => ⟨rfl, rfl, rfl, rfl, rfl⟩
      simp [keepTx, describeTx, registers, Acting, Call.quiet, Lib.quiet]

theorem doDispose_trades {p : Json}
    : (doDispose p).Within Trading (fun _ => True) (fun _ => True) := by
  have reads : Trading (.update id) := fun _ => ⟨rfl, rfl, rfl, rfl, rfl⟩
  simp only [doDispose, bind_def, within_bind, Worker.within_locked, Worker.within_orThrow,
    Worker.within_read]
  refine ⟨trivial, fun handle _ => ⟨reads, fun m => ?_⟩, fun _ _ => ⟨trivial, trivial⟩⟩
  cases m.pendingTx.lookup handle <;> simp [Acting, Mem.SamePlace]

/-- What has been checked of a send when its transaction is about to be built. -/
structure SendChecked (p : Json) (w : Wallet) (dst : String) (amount : UInt64) (v : View)
    : Prop where
  isOpen : v.mem.wallet = some w
  route : v.mem.route = .direct ∨ v.mem.route = .tor
  spends : lastWatchOnly w v.history = some false
  parsed : ∃ text, p.valueString "amount" "" = .ok text ∧ parseAtomic text = some amount
  positive : amount ≠ 0
  destination : p.valueString "address" "" = .ok dst
  valid : Address.valid dst v.mem.network = true

/-- The call of a send that has been checked. -/
abbrev createCall (w : Wallet) (dst paymentId : String) (amount : UInt64) (priority : Int32)
    (account : UInt32) : Lib :=
  .createTransaction w (cstr dst) (cstr paymentId) amount 0 priority account "" ","

/-- A send leads to where its refusals and the keeping of its transaction lead, when its other
calls change neither what holds before the call nor what it leads to. -/
theorem doCreateTransaction_leads {p : Json} {normal : Json → View → Prop} {v : View}
    (quiet : ActionsKeep rule Quiet Inv) (after : ∀ out, ActionsKeep rule Quiet (normal out))
    (refuses : ∀ v msg, Inv v → normal (err msg) v)
    (builds : ∀ v w dst amount paymentId priority account pt?, Inv v →
      SendChecked p w dst amount v →
      rule v.history
        (.asked (.lib (createCall w dst paymentId amount priority account)) (.ok pt?) v.mem) →
      (keepTx dst pt?).wp (View.act rule) normal (fun _ => Inv)
        (v.push
          (.asked (.lib (createCall w dst paymentId amount priority account)) (.ok pt?) v.mem)))
    (fails : ∀ v w dst amount paymentId priority account error, Inv v →
      SendChecked p w dst amount v →
      rule v.history
        (.asked (.lib (createCall w dst paymentId amount priority account)) (.error error) v.mem) →
      Inv (v.push
        (.asked (.lib (createCall w dst paymentId amount priority account)) (.error error) v.mem)))
    (holds : Inv v)
    : (doCreateTransaction p).wp (View.act rule) normal (fun _ => Inv) v := by
  refine wp_sending (fun msg _ => refuses v msg holds)
    (fun w error allowed => quiet.ask rfl allowed holds) ?_
  intro w isOpen route paused
  have ready := quiet.ask rfl paused holds
  -- the destructor that ends the send is quiet
  suffices body : (buildTx w p).wp (View.act rule) normal (fun _ => Inv)
      (v.push (.asked (.lib (.pauseRefresh w)) (.ok ()) v.mem)) by
    apply wp_mono body
    · exact fun out _ led allowed => (after out).ask rfl allowed led
    · exact fun _ _ kept allowed => quiet.ask rfl allowed kept
  have asked {answer : Except Exn Bool}
      (allowed : rule (.asked (.lib (.pauseRefresh w)) (.ok ()) v.mem :: v.history)
        (.asked (.lib (.watchOnly w)) answer v.mem))
      : Inv ((v.push (.asked (.lib (.pauseRefresh w)) (.ok ()) v.mem)).push
          (.asked (.lib (.watchOnly w)) answer v.mem)) :=
    quiet.ask rfl allowed ready
  simp only [buildTx, bind_def, wp_bind, Worker.wp_lib, wp_ite]
  refine ⟨fun watchOnly allowed => ⟨fun _ => refuses _ _ (asked allowed), fun spends => ?_⟩,
    fun _ allowed => asked allowed⟩
  have kept := asked allowed
  simp only [Worker.wp_orThrow]
  refine ⟨fun text given => ?_, fun _ _ => kept⟩
  cases parsed : (parseAtomic text).filter (· ≠ 0) with
  | none => exact refuses _ _ kept
  | some amount =>
      obtain ⟨isAmount, positive⟩ := Option.filter_eq_some_iff.mp parsed
      simp only [wp_bind, Worker.wp_orThrow, Worker.wp_read, wp_ite, Worker.wp_lib]
      refine ⟨fun dst destination => fun others => ⟨fun _ => refuses _ _ kept, fun valid => ?_⟩,
        fun _ _ => kept⟩
      refine ⟨fun priority _ => ⟨fun account _ => ⟨fun paymentId _ => ?_, fun _ _ => kept⟩,
        fun _ _ => kept⟩, fun _ _ => kept⟩
      have checked : SendChecked p w dst amount
          ((v.push (.asked (.lib (.pauseRefresh w)) (.ok ()) v.mem)).push
            (.asked (.lib (.watchOnly w)) (.ok watchOnly) v.mem)) := by
        refine ⟨isOpen, route, ?_, ⟨text, given, isAmount⟩, by simpa using positive, destination,
          by simpa using valid⟩
        simpa [Event.watchOnly?] using spends
      exact ⟨fun pt? built => builds _ w dst amount _ _ _ pt? kept checked built,
        fun error built => fails _ w dst amount _ _ _ error kept checked built⟩

theorem doCreateTransaction_keeps {p : Json} (trades : ActionsKeep rule Trading Inv)
    (calls : ∀ v w dst amount paymentId priority account answer, Inv v →
      SendChecked p w dst amount v →
      rule v.history
        (.asked
          (.lib
            (.createTransaction w (cstr dst) (cstr paymentId) amount 0 priority account "" ","))
          answer v.mem) →
      Inv (v.push (.asked
        (.lib (.createTransaction w (cstr dst) (cstr paymentId) amount 0 priority account "" ","))
        answer v.mem)))
    : (doCreateTransaction p).Keeps rule Inv := by
  have quiet : ActionsKeep rule Quiet Inv := trades.mono fun _ => Quiet.trading
  intro v holds
  apply doCreateTransaction_leads quiet (fun _ => quiet) (fun _ _ kept => kept) _ _ holds
  · intro v w dst amount paymentId priority account pt? kept checked allowed
    exact trades.body keepTx_trades _ (calls v w dst amount _ _ _ _ kept checked allowed)
  · intro v w dst amount paymentId priority account error kept checked allowed
    exact calls v w dst amount _ _ _ _ kept checked allowed

/-- A commit keeps an invariant when its call does that does not relay, and when one does that
relays, with the section that drops the handle. -/
theorem doCommit_keeps_by {p : Json} (quiet : ActionsKeep rule Quiet Inv)
    (calls : ∀ v w handle pt answer, Inv v → v.mem.wallet = some w →
      v.mem.route = .direct ∨ v.mem.route = .tor → p.valueString "txHandle" "" = .ok handle →
      v.mem.pendingTx.lookup handle = some pt →
      rule v.history (.asked (.lib (.commit pt "" false)) answer v.mem) → answer ≠ .ok true →
      Inv (v.push (.asked (.lib (.commit pt "" false)) answer v.mem)))
    (relays : ∀ v w handle pt o, Inv v → v.mem.wallet = some w →
      v.mem.route = .direct ∨ v.mem.route = .tor → p.valueString "txHandle" "" = .ok handle →
      v.mem.pendingTx.lookup handle = some pt →
      rule v.history (.asked (.lib (.commit pt "" false)) (.ok true) v.mem) →
      Inv (View.at (dropped handle (v.mem.under o))
        (.asked (.lib (.commit pt "" false)) (.ok true) v.mem :: v.history)))
    : (doCommit p).Keeps rule Inv := by
  apply sending_keeps quiet
  intro v w holds isOpen route
  simp only [bind_def, wp_bind, Worker.wp_orThrow, Worker.wp_read]
  refine ⟨fun handle named others => ?_, fun _ _ => holds⟩
  cases known : (v.mem.under others).pendingTx.lookup handle with
  | none => exact holds
  | some pt =>
      have asked {answer : Except Exn String}
          (allowed : rule v.history (.asked (.lib (.pendingTxid pt ",")) answer v.mem))
          : Inv (v.push (.asked (.lib (.pendingTxid pt ",")) answer v.mem)) :=
        quiet.ask rfl allowed holds
      simp only [relayTx, bind_def, wp_bind, Worker.wp_lib]
      refine ⟨fun txids allowed => ⟨fun ok allowed' => ?_, fun _ allowed' => ?_⟩,
        fun _ allowed => asked allowed⟩
      · have ready := asked allowed
        simp only [afterRelay, wp_ite, bind_def, wp_bind, Worker.wp_update, Worker.wp_lib, pure_def,
          wp_pure]
        refine ⟨fun relayed o => ?_, fun failed => ?_⟩
        · subst relayed
          have gone := relays _ w handle pt o ready isOpen route named known allowed'
          exact ⟨fun _ stored => quiet.ask rfl stored gone, fun _ stored => quiet.ask rfl stored gone⟩
        · have left := calls _ w handle pt (.ok ok) ready isOpen route named known allowed'
            (by simpa using failed)
          exact ⟨fun _ told => quiet.ask rfl told left, fun _ told => quiet.ask rfl told left⟩
      · exact calls _ w handle pt _ (asked allowed) isOpen route named known allowed' (by simp)

theorem doCommit_keeps {p : Json} (trades : ActionsKeep rule Trading Inv)
    (calls : ∀ v w handle pt answer, Inv v → v.mem.wallet = some w →
      v.mem.route = .direct ∨ v.mem.route = .tor → v.mem.pendingTx.lookup handle = some pt →
      rule v.history (.asked (.lib (.commit pt "" false)) answer v.mem) →
      Inv (v.push (.asked (.lib (.commit pt "" false)) answer v.mem)))
    : (doCommit p).Keeps rule Inv := by
  apply doCommit_keeps_by (trades.mono fun _ => Quiet.trading)
  · intro v w handle pt answer holds isOpen route _ known allowed _
    exact calls v w handle pt answer holds isOpen route known allowed
  · intro v w handle pt o holds isOpen route _ known allowed
    have drops : Trading (.update (dropped handle)) := fun _ => ⟨rfl, rfl, rfl, rfl, rfl⟩
    exact trades _ _ _ _ drops ⟨o, rfl, rfl⟩ (calls v w handle pt _ holds isOpen route known allowed)

-----------------------------------------------------------------------------------------
-- Moving to Tor
-----------------------------------------------------------------------------------------

/-- The session keeps its objects and its network. -/
def Mem.SameHolding (m m' : Mem) : Prop :=
  m'.wallet = m.wallet ∧ m'.pendingTx = m.pendingTx ∧ m'.nextTx = m.nextTx
    ∧ m'.network = m.network

/-- The calls of a move, except for its init. -/
def Lib.moves : Lib → Bool
  | .setOffline .. | .setTrustedDaemon .. => true
  | c => c.quiet

def Call.moves : Call → Bool
  | .lib c | .destructor c => c.moves
  | .resolve _ => false
  | _ => true

abbrev Moving : Op → Prop := Acting Mem.SameHolding Call.moves

/-- The calls that take a wallet offline. -/
def Call.withdraws : Call → Bool
  | .lib (.setOffline _ offline) => offline
  | .resolve _ => false
  | c => c.quiet

/-- An action that takes a wallet offline, and assigns nothing. -/
abbrev Withdrawing : Op → Prop := Acting Eq Call.withdraws

theorem Withdrawing.moving {op : Op} (withdrawing : Withdrawing op) : Moving op := by
  cases op with
  | update f =>
      intro m
      rw [← withdrawing m]
      exact ⟨rfl, rfl, rfl, rfl⟩
  | ask c =>
      cases c with
      | lib c => cases c <;> first | rfl | cases withdrawing
      | destructor c => cases c <;> first | rfl | cases withdrawing
      | resolve network => cases withdrawing
      | _ => rfl
  | _ => exact withdrawing

theorem dropCatchUp_quietly {node : Json} : (dropCatchUp node).Quietly := by
  unfold dropCatchUp
  split
  · simp [Acting, Call.quiet]
  · trivial

theorem goOffline_withdraws {abandon : Bool} {node : Json}
    : (goOffline abandon node).Within Withdrawing (fun _ => True) (fun _ => True) := by
  have drops : (Program.when abandon (dropCatchUp node)).Within Withdrawing (fun _ => True)
      (fun _ => True) := by
    refine within_when.mpr ⟨fun _ => ?_, fun _ => trivial⟩
    unfold dropCatchUp
    split
    · simp [Acting, Call.withdraws, Call.quiet]
    · trivial
  have dropped {normal : Unit → Prop} (holds : normal ())
      : (Program.when abandon (dropCatchUp node)).Within Withdrawing normal (fun _ => True) :=
    drops.mono (fun _ moving => moving) (fun _ _ => holds) (fun _ _ => trivial)
  simp only [goOffline, bind_def, within_bind, Worker.within_locked, Worker.within_read]
  refine ⟨trivial, fun m => rfl, fun m => ?_⟩
  cases m.wallet <;> simp [dropped, Acting, Call.withdraws, Call.quiet, Lib.quiet]

theorem goOffline_moves {abandon : Bool} {node : Json}
    : (goOffline abandon node).Within Moving (fun _ => True) (fun _ => True) :=
  goOffline_withdraws.mono (fun _ => Withdrawing.moving) (fun _ _ => trivial) (fun _ _ => trivial)

theorem goOnline_moves {w : Wallet} {ok : Bool}
    : (goOnline w ok).Within Moving (fun _ => True) (fun _ => True) := by
  simp [goOnline, Acting, Call.moves, Lib.moves, Lib.quiet]

theorem recordMove_moves {node : Json} {error : String}
    : (recordMove node error).Within Moving (fun _ => True) (fun _ => True) := by
  simp [recordMove, setState, Acting, Mem.SameHolding, moved, labelled, Call.moves]

/-- The init that a move makes. -/
def torInit (node : Json) (w : Wallet) : Lib :=
  .init w (cstr (hostPort (str node "url"))) 0 "" "" false false
    (cstr (proxyHostPort (str node "proxy")))

/-- A class that has the actions of a move, except for its init, and does not ask the node
module. -/
structure Relocates (rule : Surroundings) (allowed : Op → Prop) : Prop where
  offline : ∀ abandon node, (goOffline abandon node).Within allowed (fun _ => True) (fun _ => True)
  online : ∀ w ok, (goOnline w ok).Within allowed (fun _ => True) (fun _ => True)
  records : ∀ node error, (recordMove node error).Within allowed (fun _ => True) (fun _ => True)
  answers : ∀ node, ActionsKeep rule allowed (fun v => lastAnswer v.history = some node)

/-- An action that does not ask the node module leaves its last answer. -/
theorem keeps_lastAnswer {assigns : Mem → Mem → Prop} {calls : Call → Bool} {node : Json}
    (unasking : ∀ network, calls (.resolve network) = false)
    : ActionsKeep rule (Acting assigns calls) (fun v => lastAnswer v.history = some node) := by
  apply ActionsKeep.acting
  · exact fun _ _ _ answered => answered
  · intro v c answer call _ answered
    cases c with
    | resolve network => cases (unasking network).symm.trans call
    | _ => exact answered

theorem moving_relocates : Relocates rule Moving where
  offline _ _ := goOffline_moves
  online _ _ := goOnline_moves
  records _ _ := recordMove_moves
  answers _ := keeps_lastAnswer fun _ => rfl

/-- A move keeps an invariant when its init does, which goes by the last answer of the node
module, and when its other actions do. -/
theorem moveToTor_keeps_by {allowed : Op → Prop} {abandon : Bool} {resolved : Option Json}
    {v : View} (relocates : Relocates rule allowed) (holds : Inv v)
    (steady : ActionsKeep rule Steady Inv) (moving : ActionsKeep rule allowed Inv)
    (inits : ∀ v w node answer, Inv v → v.mem.wallet = some w →
      lastAnswer v.history = some node → torReady node = true →
      Inv (v.push (.asked (.lib (torInit node w)) answer v.mem)))
    (given : ∀ node, resolved = some node → lastAnswer v.history = some node)
    : (moveToTor abandon resolved).wp (View.act rule) (fun _ => Inv) (fun _ => Inv) v := by
  have moves (from_ : Route) (node : Json) (v : View) (holds : Inv v)
      (answered : lastAnswer v.history = some node)
      : (moveWith abandon node from_).wp (View.act rule) (fun _ => Inv) (fun _ => Inv) v := by
    simp only [moveWith, wp_ite, bind_def, wp_bind]
    refine ⟨fun _ => holds, fun _ => ?_⟩
    apply wp_mono ((moving.and (relocates.answers node)).body (relocates.offline _ _) v
      ⟨holds, answered⟩)
    · intro stopped v₁ offline
      refine ⟨fun _ => offline.1, fun _ => ?_⟩
      have recorded {error : String} {v₂ : View} (kept : Inv v₂)
          : (recordMove node error).wp (View.act rule) (fun _ => Inv) (fun _ => Inv) v₂ :=
        moving.body (relocates.records _ _) v₂ kept
      simp only [dialTor, bind_def, Worker.wp_locked, wp_bind, Worker.wp_read]
      intro others
      cases isOpen : (v₁.mem.under others).wallet with
      | none => exact offline.1
      | some w =>
          simp only [wp_ite, wp_bind, Worker.wp_lib]
          refine ⟨fun ready => ⟨fun ok _ => ?_, fun _ _ => ?_⟩, fun _ => recorded offline.1⟩
          · have dialled := inits v₁ w node (.ok ok) offline.1 isOpen offline.2 ready
            refine wp_mono (moving.body (relocates.online _ _) _ dialled)
              (fun dialled _ kept => ?_) (fun _ _ kept => kept)
            cases dialled with
            | none => exact kept
            | some error => exact recorded kept
          · exact inits v₁ w node _ offline.1 isOpen offline.2 ready
    · exact fun _ _ left => left.1
  simp only [moveToTor, bind_def, wp_bind, Worker.wp_read]
  intro others
  cases resolved with
  | some node => exact moves _ node v holds (given node rfl)
  | none =>
      simp only [wp_bind, Worker.wp_resolve]
      refine ⟨fun node allowed => ?_, fun _ allowed => steady.ask rfl allowed holds⟩
      exact moves _ node _ (steady.ask rfl allowed holds) rfl

/-- The same for an invariant that holds through any move. -/
theorem moveToTor_keeps {abandon : Bool} {resolved : Option Json} {v : View} (holds : Inv v)
    (steady : ActionsKeep rule Steady Inv) (moving : ActionsKeep rule Moving Inv)
    (inits : ∀ v w node answer, Inv v → v.mem.wallet = some w →
      lastAnswer v.history = some node → torReady node = true →
      Inv (v.push (.asked (.lib (torInit node w)) answer v.mem)))
    (given : ∀ node, resolved = some node → lastAnswer v.history = some node)
    : (moveToTor abandon resolved).wp (View.act rule) (fun _ => Inv) (fun _ => Inv) v :=
  moveToTor_keeps_by moving_relocates holds steady moving inits given

-----------------------------------------------------------------------------------------
-- Ticks
-----------------------------------------------------------------------------------------

def Lib.makes : Lib → Bool
  | .openWallet .. | .createWallet .. | .recoveryWallet .. | .createWalletFromKeys .. => true
  | _ => false

/-- The calls that make a wallet object. -/
def Call.makes : Call → Bool
  | .lib c | .destructor c => c.makes
  | _ => false

/-- An action that makes no wallet object. -/
abbrev Unmaking : Op → Prop := Acting (fun _ _ => True) (fun c => !c.makes)

theorem Moving.unmaking {op : Op} (moving : Moving op) : Unmaking op := by
  cases op with
  | update f => exact fun _ => trivial
  | ask c =>
      cases c with
      | lib c => cases c <;> first | rfl | cases moving
      | destructor c => cases c <;> first | rfl | cases moving
      | _ => rfl
  | _ => exact moving

theorem Quiet.unmaking {op : Op} (quiet : Quiet op) : Unmaking op := by
  cases op with
  | update f => exact fun _ => trivial
  | ask c =>
      cases c with
      | lib c => cases c <;> first | rfl | cases quiet
      | destructor c => cases c <;> first | rfl | cases quiet
      | _ => rfl
  | _ => exact quiet

theorem resolve_unmakes {network : String} : (Worker.resolve network).Stays Unmaking :=
  Worker.within_resolve.mpr ⟨rfl, fun _ => trivial, fun _ => trivial⟩

theorem moveToTor_unmakes {abandon : Bool} {resolved : Option Json}
    : (moveToTor abandon resolved).Stays Unmaking := by
  have moves {α : Type} {p : Worker α} (moves : p.Within Moving (fun _ => True) (fun _ => True))
      : p.Stays Unmaking :=
    moves.mono (fun _ => Moving.unmaking) (fun _ _ => trivial) (fun _ _ => trivial)
  have dials (node : Json) : (dialTor node).Stays Unmaking := by
    simp only [dialTor, Worker.Stays, Worker.within_locked, within_bind, bind_def,
      Worker.within_read]
    refine ⟨trivial, fun _ => trivial, fun m => ?_⟩
    cases m.wallet <;> simp [goOnline, Acting, Call.makes, Lib.makes]
  have goes (node : Json) (from_ : Route) : (moveWith abandon node from_).Stays Unmaking := by
    refine .ite .value (.bind (moves goOffline_moves) fun _ => .ite .value ?_)
    refine .bind (dials node) fun dialled => ?_
    cases dialled with
    | none => exact .value
    | some error => exact moves recordMove_moves
  refine .bind ⟨fun _ => trivial, fun _ => trivial⟩ fun m => ?_
  cases resolved with
  | some node => exact goes node _
  | none => exact .bind resolve_unmakes fun node => goes node _

/-- A tick makes no wallet object. -/
theorem follows_unmakes {seen : Option (Bool × UInt64)}
    : Worker.Stays Unmaking
        (match seen with
          | none => Pure.pure ()
          | some (synced, height) => do
              let now ← Worker.now
              let m ← Worker.update (ticked height now)
              followRoute synced now (progressed height now m)
              followSync synced) := by
  have followed {synced : Bool} : (followSync synced).Stays Unmaking :=
    followSync_quietly.mono (fun _ => Quiet.unmaking) (fun _ _ => trivial) (fun _ _ => trivial)
  cases seen with
  | none => exact .value
  | some seen =>
      refine .bind ⟨rfl, fun _ => trivial⟩ fun now => .bind ⟨fun _ => trivial, fun _ => trivial⟩
        fun m => .bind ?_ fun _ => followed
      exact .ite moveToTor_unmakes
        (.ite (.bind resolve_unmakes fun _ => .when moveToTor_unmakes) .value)

end MoneroWalletCore.Runtime
